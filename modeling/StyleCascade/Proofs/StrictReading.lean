import StyleCascade.Proofs.Names
import StyleCascade.Selector.Strict

/-!
# What the strict reader reads

Whatever the strict reader takes for a selector is the text of a selector of the grammar: its
parts are words of the grammar, and their texts stand one behind the other.

* `readTag_ok`, `readShorthands_ok`, `readClauses_ok`, `readState_ok` — the four parts.
* `parseCompound_ok` — a whole selector: the trimmed text is the text of the parts, and the parts
  are valid.
-/

namespace StyleCascade

open StyleCascade.Text StyleCascade.Selector

/-! ## Texts of the parts -/

theorem toList_text_context (name : String) :
    (Shorthand.context name).text.toList = '.' :: name.toList := by
  simp [Shorthand.text]

theorem toList_text_identifier (name : String) :
    (Shorthand.identifier name).text.toList = '#' :: name.toList := by
  simp [Shorthand.text]

theorem AttributeClause.toList_text_present (name : String) (value : Option String) :
    (AttributeClause.mk name .present value).text.toList = '[' :: name.toList ++ [']'] := by
  simp [AttributeClause.text]

theorem AttributeClause.toList_text_of_ne {op : ClauseOperator} (h : op ≠ .present)
    (name value : String) :
    (AttributeClause.mk name op (some value)).text.toList =
      '[' :: name.toList ++ (op.token.toList ++ '"' :: value.toList ++ ['"', ']']) := by
  cases op with
  | present => exact absurd rfl h
  | _ => simp [AttributeClause.text]

/-- A clause of the grammar asks whether an attribute is there or compares it with a value. -/
theorem AttributeClause.IsValid.exists_name {clause : AttributeClause} (h : clause.IsValid) :
    ∃ name, IsAttributeName name ∧ (clause = ⟨name, .present, none⟩ ∨
      ∃ op value, op ≠ .present ∧ '"' ∉ value.toList ∧ clause = ⟨name, op, some value⟩) := by
  obtain ⟨name, op, value⟩ := clause
  obtain ⟨hname, hvalue⟩ := h
  refine ⟨name, hname, ?_⟩
  by_cases hop : op = .present
  · subst hop
    exact .inl (congrArg _ hvalue)
  · obtain ⟨text, rfl, hquote⟩ : ∃ text, value = some text ∧ '"' ∉ text.toList := by
      cases op with
      | present => exact absurd rfl hop
      | _ => exact hvalue
    exact .inr ⟨op, text, hop, hquote, rfl⟩

/-- The text of shorthands one behind the other. -/
def shorthandsText (shorthands : List Shorthand) : List Char :=
  shorthands.flatMap fun s => s.text.toList

@[simp] theorem shorthandsText_nil : shorthandsText [] = [] := rfl

@[simp] theorem shorthandsText_cons (item : Shorthand) (items : List Shorthand) :
    shorthandsText (item :: items) = item.text.toList ++ shorthandsText items :=
  List.flatMap_cons

/-- The text of clauses one behind the other. -/
def clausesText (clauses : List AttributeClause) : List Char :=
  clauses.flatMap fun c => c.text.toList

@[simp] theorem clausesText_nil : clausesText [] = [] := rfl

@[simp] theorem clausesText_cons (item : AttributeClause) (items : List AttributeClause) :
    clausesText (item :: items) = item.text.toList ++ clausesText items :=
  List.flatMap_cons

/-- The text of a state, if there is one. -/
def stateText : Option String → List Char
  | none => []
  | some name => ':' :: name.toList

theorem Compound.toList_text (c : Compound) :
    c.text.toList = c.tag.toList ++
      (shorthandsText c.shorthands ++ (clausesText c.clauses ++ stateText c.state)) := by
  have hstate : ((c.state.map (":" ++ ·)).getD "").toList = stateText c.state := by
    cases c.state <;> simp [stateText]
  simp only [Compound.text, String.toList_append, String.toList_join, hstate, shorthandsText,
    clausesText, List.flatMap_map, List.append_assoc]

/-! ## Words of the grammar as characters -/

theorem isNameWord_iff {s : String} : IsNameWord s ↔ NameWord s.toList := Iff.rfl

theorem isNameWord_ofList {w : List Char} : IsNameWord (String.ofList w) ↔ NameWord w := by
  rw [isNameWord_iff, String.toList_ofList]

/-- The name of an identifier is words joined by dots. -/
theorem isValid_identifier_iff {name : String} :
    (Shorthand.identifier name).IsValid ↔
      ∃ words : List (List Char), words ≠ [] ∧ (∀ w ∈ words, NameWord w) ∧
        name.toList = dotted words := by
  constructor
  · rintro ⟨words, hne, hwords, rfl⟩
    refine ⟨words.map String.toList, by simpa using hne, ?_, ?_⟩
    · intro w hw
      obtain ⟨s, hs, rfl⟩ := List.mem_map.1 hw
      exact hwords s hs
    · rw [String.toList_intercalate]
      rfl
  · rintro ⟨words, hne, hwords, hname⟩
    refine ⟨words.map String.ofList, by simpa using hne, ?_, ?_⟩
    · intro s hs
      obtain ⟨w, hw, rfl⟩ := List.mem_map.1 hs
      exact isNameWord_ofList.2 (hwords w hw)
    · rw [← String.toList_inj, String.toList_intercalate, hname, List.map_map]
      simp [dotted, Function.comp_def]

theorem isName_of_isNameStart {c : Char} (h : isNameStart c = true) : isName c = true :=
  isName_of_isWord (isWord_of_isNameStart h)

theorem isName_of_mem_attributeName {name : String} (h : IsAttributeName name) :
    ∀ c ∈ name.toList, isName c = true := by
  obtain ⟨c, cs, heq, hc, hcs⟩ := h
  rw [heq, List.forall_mem_cons]
  exact ⟨isName_of_isNameStart hc, hcs⟩

theorem IsTag.ne_nil {tag : String} (h : IsTag tag) : tag.toList ≠ [] := by
  obtain ⟨c, cs, heq, -⟩ := h
  rw [heq]
  exact List.cons_ne_nil c cs

theorem isWord_of_mem_tag {tag : String} (h : IsTag tag) : ∀ c ∈ tag.toList, isWord c = true := by
  obtain ⟨c, cs, heq, hc, hcs⟩ := h
  rw [heq, List.forall_mem_cons]
  exact ⟨isWord_of_isNameStart hc, hcs⟩

theorem isName_of_mem_tag {tag : String} (h : IsTag tag) : ∀ c ∈ tag.toList, isName c = true :=
  fun c hc => isName_of_isWord (isWord_of_mem_tag h c hc)

namespace Selector

/-! ## The tag -/

theorem readTag_ok {s rest : List Char} {tag : String} (h : readTag s = .ok (tag, rest)) :
    s = tag.toList ++ rest ∧ IsTag tag ∧ StopsAt isWord rest := by
  cases s with
  | nil => cases h
  | cons c cs =>
    rw [readTag] at h
    split at h
    · rename_i hc
      obtain ⟨rfl, rfl⟩ := Prod.mk.inj (Except.ok.inj h)
      refine ⟨by simp, ⟨c, cs.takeWhile isWord, by simp, hc, ?_⟩, stopsAt_dropWhile isWord cs⟩
      exact fun d hd => mem_takeWhile hd
    · cases h

/-! ## Shorthands -/

/-- A text that does not continue the name of a shorthand. -/
def ShorthandEnds : Shorthand → List Char → Prop
  | .context _, rest => StopsAt isName rest
  | .identifier _, rest => EndsDotted rest

theorem readShorthand_ok {s rest : List Char} {item : Shorthand}
    (h : readShorthand s = some (.ok (item, rest))) :
    s = item.text.toList ++ rest ∧ item.IsValid ∧ ShorthandEnds item rest := by
  unfold readShorthand at h
  split at h
  · rename_i cs
    simp only at h
    split at h
    · simp at h
    · rename_i hne
      obtain ⟨rfl, rfl⟩ : _ ∧ _ := by simpa using h
      refine ⟨?_, ?_, stopsAt_nameSpan_snd cs⟩
      · rw [toList_text_context, String.toList_ofList, List.cons_append, nameSpan_append]
      · exact isNameWord_ofList.2 ⟨by simpa using hne, nameSpan_fst_isName cs⟩
  · rename_i cs
    simp only at h
    split at h
    · rename_i hhead
      obtain ⟨rfl, rfl⟩ : _ ∧ _ := by simpa using h
      refine ⟨?_, ?_, endsDotted_dottedSpan_snd cs⟩
      · rw [toList_text_identifier, String.toList_ofList, List.cons_append, dottedSpan_append]
      · obtain ⟨words, hwords⟩ := exists_words_of_dottedSpan hhead
        rw [isValid_identifier_iff, String.toList_ofList]
        exact ⟨words, hwords⟩
    · simp at h
  · simp at h

/-- A context does not stand directly behind an identifier, whose name it would continue. -/
theorem mayPrecede_of_shorthandEnds {a b : Shorthand} (hb : b.IsValid) {rest : List Char}
    (h : ShorthandEnds a (b.text.toList ++ rest)) : a.MayPrecede b := by
  cases a with
  | context name => cases b <;> trivial
  | identifier name =>
    cases b with
    | identifier name' => trivial
    | context name' =>
      rw [ShorthandEnds, toList_text_context, List.cons_append, endsDotted_iff] at h
      have hstops := h.2 _ rfl
      have hhead := NameWord.head_isName (isNameWord_iff.1 hb) rest
      cases hrest : name'.toList ++ rest with
      | nil => simp [hrest] at hhead
      | cons c cs =>
        rw [hrest] at hstops hhead
        simp only [stopsAt_cons] at hstops
        simp [hstops] at hhead

/-- Shorthands are read one by one until none stands at the head of the text. -/
theorem readShorthands_ok_cases {s rest : List Char} {items : List Shorthand}
    (h : readShorthands s = .ok (items, rest)) :
    (readShorthand s = none ∧ items = [] ∧ rest = s) ∨
      ∃ item behind more, readShorthand s = some (.ok (item, behind)) ∧
        readShorthands behind = .ok (more, rest) ∧ items = item :: more := by
  rw [readShorthands] at h
  split at h
  · rename_i hnone
    obtain ⟨rfl, rfl⟩ := Prod.mk.inj (Except.ok.inj h)
    exact .inl ⟨hnone, rfl, rfl⟩
  · cases h
  · rename_i item behind hitem
    simp only at h
    split at h
    · cases h
    · rename_i more _ hmore
      obtain ⟨rfl, rfl⟩ := Prod.mk.inj (Except.ok.inj h)
      exact .inr ⟨item, behind, more, hitem, hmore, rfl⟩

theorem readShorthands_ok {s rest : List Char} {items : List Shorthand}
    (h : readShorthands s = .ok (items, rest)) :
    s = shorthandsText items ++ rest ∧ (∀ item ∈ items, item.IsValid) ∧ Separated items ∧
      readShorthand rest = none := by
  induction items generalizing s with
  | nil =>
    rcases readShorthands_ok_cases h with ⟨hnone, -, rfl⟩ | ⟨_, _, _, _, _, hcons⟩
    · exact ⟨rfl, by simp, trivial, hnone⟩
    · cases hcons
  | cons item more ih =>
    rcases readShorthands_ok_cases h with ⟨_, hnil, _⟩ | ⟨item', behind, more', hitem, hmore, hcons⟩
    · cases hnil
    · obtain ⟨rfl, rfl⟩ := List.cons.inj hcons
      obtain ⟨htext, hvalid, hends⟩ := readShorthand_ok hitem
      obtain ⟨hbehind, hall, hsep, hnone⟩ := ih hmore
      refine ⟨?_, List.forall_mem_cons.2 ⟨hvalid, hall⟩, ?_, hnone⟩
      · rw [htext, hbehind, shorthandsText_cons, List.append_assoc]
      · cases more with
        | nil => trivial
        | cons next others =>
          refine ⟨?_, hsep⟩
          rw [hbehind, shorthandsText_cons, List.append_assoc] at hends
          exact mayPrecede_of_shorthandEnds (hall next List.mem_cons_self) hends

/-! ## Clauses -/

theorem attributeName?_ok {s rest : List Char} {name : String}
    (h : attributeName? s = some (name, rest)) :
    s = name.toList ++ rest ∧ IsAttributeName name ∧ StopsAt isName rest := by
  cases s with
  | nil => cases h
  | cons c cs =>
    simp only [attributeName?] at h
    split at h
    · rename_i hc
      obtain ⟨rfl, rfl⟩ := Prod.mk.inj (Option.some.inj h)
      refine ⟨?_, ⟨c, (nameSpan cs).1, by simp, hc, nameSpan_fst_isName cs⟩,
        stopsAt_nameSpan_snd cs⟩
      rw [String.toList_ofList, List.cons_append, nameSpan_append]
    · cases h

theorem operator?_ok {s rest : List Char} {op : ClauseOperator}
    (h : operator? s = some (op, rest)) : s = op.token.toList ++ rest ∧ op ≠ .present := by
  unfold operator? at h
  split at h <;> simp only [Option.some.injEq, Prod.mk.injEq, reduceCtorEq] at h
  all_goals
    obtain ⟨rfl, rfl⟩ := h
    exact ⟨rfl, by simp⟩

theorem quotedValue?_ok {s value rest : List Char} (h : quotedValue? s = some (value, rest)) :
    s = '"' :: (value ++ '"' :: rest) ∧ '"' ∉ value := by
  unfold quotedValue? at h
  split at h
  · rename_i cs
    split at h
    · rename_i d rest' hdrop
      obtain ⟨rfl, rfl⟩ := Prod.mk.inj (Option.some.inj h)
      have hd : d = '"' := by
        have hstops := stopsAt_dropWhile (fun c : Char => c != '"') cs
        rw [hdrop] at hstops
        simpa using hstops
      subst hd
      refine ⟨?_, fun hmem => ?_⟩
      · rw [← hdrop, List.takeWhile_append_dropWhile]
      · simpa using mem_takeWhile hmem
    · cases h
  · cases h

theorem readTest_ok {name s rest : List Char} {op : ClauseOperator} {value : Option String}
    (h : readTest name s = .ok ((op, value), rest)) :
    (op = .present ∧ value = none ∧ s = ']' :: rest) ∨
      op ≠ .present ∧ ∃ text : String, value = some text ∧ '"' ∉ text.toList ∧
        s = op.token.toList ++ '"' :: text.toList ++ '"' :: ']' :: rest := by
  unfold readTest at h
  split at h
  · cases h
  · obtain ⟨⟨rfl, rfl⟩, rfl⟩ : (_ ∧ _) ∧ _ := by simpa using h
    exact .inl ⟨rfl, rfl, rfl⟩
  · split at h
    · cases h
    · cases h
    · rename_i op' behind _ hop
      obtain ⟨rfl, hne⟩ := operator?_ok hop
      split at h
      · cases h
      · cases h
      · rename_i text _ hquoted
        obtain ⟨rfl, hmem⟩ := quotedValue?_ok hquoted
        obtain ⟨⟨rfl, rfl⟩, rfl⟩ : (_ ∧ _) ∧ _ := by simpa using h
        refine .inr ⟨hne, String.ofList text, rfl, by simpa using hmem, ?_⟩
        simp
      · cases h

theorem readClause_ok {s rest : List Char} {item : AttributeClause}
    (h : readClause s = some (.ok (item, rest))) :
    s = item.text.toList ++ rest ∧ item.IsValid := by
  unfold readClause at h
  split at h
  · simp at h
  · rename_i cs _
    split at h
    · simp at h
    · rename_i name behind hname
      obtain ⟨rfl, hvalid, _⟩ := attributeName?_ok hname
      split at h
      · simp at h
      · rename_i op value _ htest
        obtain ⟨rfl, rfl⟩ : _ ∧ _ := by simpa using h
        rcases readTest_ok htest with ⟨rfl, rfl, rfl⟩ | ⟨hne, text, rfl, hmem, rfl⟩
        · refine ⟨?_, hvalid, rfl⟩
          rw [AttributeClause.toList_text_present]
          simp
        · refine ⟨?_, hvalid, ?_⟩
          · rw [AttributeClause.toList_text_of_ne hne]
            simp
          · cases op with
            | present => exact absurd rfl hne
            | _ => exact ⟨text, rfl, hmem⟩
  · simp at h

/-- Clauses are read one by one until none stands at the head of the text. -/
theorem readClauses_ok_cases {s rest : List Char} {items : List AttributeClause}
    (h : readClauses s = .ok (items, rest)) :
    (readClause s = none ∧ items = [] ∧ rest = s) ∨
      ∃ item behind more, readClause s = some (.ok (item, behind)) ∧
        readClauses behind = .ok (more, rest) ∧ items = item :: more := by
  rw [readClauses] at h
  split at h
  · rename_i hnone
    obtain ⟨rfl, rfl⟩ := Prod.mk.inj (Except.ok.inj h)
    exact .inl ⟨hnone, rfl, rfl⟩
  · cases h
  · rename_i item behind hitem
    simp only at h
    split at h
    · cases h
    · rename_i more _ hmore
      obtain ⟨rfl, rfl⟩ := Prod.mk.inj (Except.ok.inj h)
      exact .inr ⟨item, behind, more, hitem, hmore, rfl⟩

theorem readClauses_ok {s rest : List Char} {items : List AttributeClause}
    (h : readClauses s = .ok (items, rest)) :
    s = clausesText items ++ rest ∧ ∀ item ∈ items, item.IsValid := by
  induction items generalizing s with
  | nil =>
    rcases readClauses_ok_cases h with ⟨_, -, rfl⟩ | ⟨_, _, _, _, _, hcons⟩
    · exact ⟨rfl, by simp⟩
    · cases hcons
  | cons item more ih =>
    rcases readClauses_ok_cases h with ⟨_, hnil, _⟩ | ⟨item', behind, more', hitem, hmore, hcons⟩
    · cases hnil
    · obtain ⟨rfl, rfl⟩ := List.cons.inj hcons
      obtain ⟨htext, hvalid⟩ := readClause_ok hitem
      obtain ⟨hbehind, hall⟩ := ih hmore
      refine ⟨?_, List.forall_mem_cons.2 ⟨hvalid, hall⟩⟩
      rw [htext, hbehind, clausesText_cons, List.append_assoc]

/-! ## The state and the whole selector -/

theorem readState_ok {s : List Char} {state : Option String} (h : readState s = .ok state) :
    s = stateText state ∧ ∀ name ∈ state, IsNameWord name := by
  unfold readState at h
  split at h
  · cases h
    exact ⟨rfl, by simp⟩
  · cases h
  · rename_i cs _
    split at h
    · cases h
    · rename_i name hne hspan
      cases h
      obtain ⟨rfl, hname⟩ := eq_append_of_nameSpan hspan
      refine ⟨by simp [stateText], ?_⟩
      rintro _ ⟨⟩
      exact isNameWord_ofList.2 ⟨hne, hname⟩
    · cases h
  · cases h

/-- **The strict reader is sound.**  A selector that it reads is, but for the blanks at its two
ends, the text of the parts that it gives, and these are words of the grammar. -/
theorem parseCompound_ok {selector : String} {c : Compound} (h : parseCompound selector = .ok c) :
    trim selector.toList = c.text.toList ∧ c.IsValid := by
  have hread : readCompound (trim selector.toList) = .ok c := by
    rw [parseCompound] at h
    cases hread : readCompound (trim selector.toList) with
    | error blamed =>
      rw [hread] at h
      cases h
    | ok read =>
      rw [hread] at h
      cases h
      rfl
  simp only [readCompound, bind, Except.bind] at hread
  split at hread
  · cases hread
  · rename_i p htag
    split at hread
    · cases hread
    · rename_i q hshorthands
      split at hread
      · cases hread
      · rename_i r hclauses
        split at hread
        · cases hread
        · rename_i state hstate
          cases hread
          obtain ⟨ht, htagvalid, _⟩ := readTag_ok htag
          obtain ⟨hs, hsvalid, hsep, _⟩ := readShorthands_ok hshorthands
          obtain ⟨hc, hcvalid⟩ := readClauses_ok hclauses
          obtain ⟨hstext, hstvalid⟩ := readState_ok hstate
          refine ⟨?_, htagvalid, hsvalid, hsep, hcvalid, hstvalid⟩
          rw [Compound.toList_text, ht, hs, hc, hstext]

end Selector

end StyleCascade

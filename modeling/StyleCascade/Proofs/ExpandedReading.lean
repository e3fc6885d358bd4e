import StyleCascade.Proofs.Agreement
import StyleCascade.Proofs.StrictGrammar

/-!
# Reading a selector once its shorthands are expanded

Expanding the shorthands of a selector should not change what it aims at.  The grammar, however,
wants all shorthands in front of the clauses, and expansion replaces them one by one: a shorthand
that stays behind one that is expanded makes the selector unreadable.  And an identifier that stays
as it is written may lose words to contexts, if these are known and stand behind its dots.

* `Compound.leadingWords`, `Compound.trailing` — what expansion leaves of the shorthands of a
  selector, up to the first clause and from it on.
* `Kept`, `leadsWithKept` — the leading words are the text of shorthands: all are as they were
  written, but for the last one, which may be the front part of an identifier.
* `isReadingOf_normalize`, `exists_error_normalize` — the expanded selector is read where clauses
  only are trailing, and else it is not.
* `Compound.ExpandsAlike`, `strictTarget_normalize_iff_expandsAlike` — when the strict reader gives
  the expanded selector the target of the selector.
* `expandsAlike_iff_of_attached` — where all shorthands are attached, it does so exactly if the
  unknown contexts stand in front.
* `strictTarget_normalize_eq_iff` — both together.
-/

namespace StyleCascade

open StyleCascade.Text StyleCascade.Selector

/-! ## Words and clauses of a row -/

namespace Segment

/-- Whether a segment is a word. -/
def isWord : Segment → Bool
  | .word _ _ => true
  | .clause _ _ => false

/-- Whether a segment is a word behind `#`. -/
def isHash : Segment → Bool
  | .word mark _ => mark == '#'
  | .clause _ _ => false

end Segment

/-- The words in front of the first clause that stands for a shorthand. -/
def Compound.leadingWords (known : List String) (c : Compound) : List Segment :=
  (c.looseSegments known).takeWhile Segment.isWord

/-- The first clause that stands for a shorthand, and the segments behind it. -/
def Compound.trailing (known : List String) (c : Compound) : List Segment :=
  (c.looseSegments known).dropWhile Segment.isWord

section
variable {segments : List Segment}

theorem takeWhile_dots (words : List (List Char)) (rest : List Segment) :
    (words.map (Segment.word '.') ++ rest).takeWhile Segment.isWord =
      words.map (.word '.') ++ rest.takeWhile Segment.isWord := by
  refine List.takeWhile_append_of_pos fun segment h => ?_
  obtain ⟨w, _, rfl⟩ := List.mem_map.1 h
  rfl

theorem dropWhile_dots (words : List (List Char)) (rest : List Segment) :
    (words.map (Segment.word '.') ++ rest).dropWhile Segment.isWord =
      rest.dropWhile Segment.isWord := by
  refine List.dropWhile_append_of_pos fun segment h => ?_
  obtain ⟨w, _, rfl⟩ := List.mem_map.1 h
  rfl

theorem countP_isHash_dots (words : List (List Char)) :
    (words.map (Segment.word '.')).countP Segment.isHash = 0 := by
  rw [List.countP_eq_zero]
  intro segment h
  obtain ⟨w, _, rfl⟩ := List.mem_map.1 h
  exact Bool.false_ne_true

/-- Clauses that stand for shorthands are written as clauses are. -/
theorem segmentsText_of_forall_clause (h : ∀ s ∈ segments, s.isWord = false) :
    segmentsText segments = clausesText (segments.filterMap Segment.clause?) := by
  induction segments with
  | nil => rfl
  | cons segment rest ih =>
    rw [List.forall_mem_cons] at h
    cases segment with
    | clause attr name =>
      rw [segmentsText_cons, ih h.2, Segment.text, ← toList_text_shorthandClause]
      rfl
    | word mark name => cases h.1

theorem isValid_filterMap_clause? (h : ∀ s ∈ segments, s.IsValid) :
    ∀ clause ∈ segments.filterMap Segment.clause?, clause.IsValid ∧ clause.isConsumed = true := by
  intro clause hclause
  obtain ⟨segment, hsegment, heq⟩ := List.mem_filterMap.1 hclause
  have hvalid := h segment hsegment
  cases segment with
  | clause attr name =>
    cases heq
    exact ⟨isValid_shorthandClause hvalid.1 hvalid.2, isConsumed_shorthandClause hvalid.1 hvalid.2⟩
  | word mark name => cases heq

/-- Behind the leading words stands a clause, if anything. -/
theorem endsRow_dropWhile (segments : List Segment) {tail : List Char} (htail : EndsRow tail) :
    EndsRow (segmentsText (segments.dropWhile Segment.isWord) ++ tail) := by
  have hhead := List.head?_dropWhile_not Segment.isWord segments
  cases hrest : segments.dropWhile Segment.isWord with
  | nil => exact htail
  | cons segment rest =>
    rw [hrest] at hhead
    cases segment with
    | clause attr name =>
      rw [segmentsText_cons, Segment.text, equalsClause_eq]
      rintro _ ⟨⟩
      exact .inl rfl
    | word mark name => cases hhead

end

/-! ## The words of an identifier that stays -/

/-- Whether a shorthand behind words is attached, given whether one in front of them is. -/
def lastInWord (attached : Bool) (words : List (List Char)) : Bool :=
  (words.getLast?.map endsInWord).getD attached

theorem lastInWord_cons (attached : Bool) (w : List Char) (words : List (List Char)) :
    lastInWord attached (w :: words) = lastInWord (endsInWord w) words := by
  rw [lastInWord, lastInWord, List.getLast?_cons]
  cases words.getLast? <;> rfl

theorem endsInWord_dotted {w : List Char} {ws : List (List Char)} (h : ∀ x ∈ w :: ws, NameWord x) :
    endsInWord (dotted (w :: ws)) = lastInWord (endsInWord w) ws := by
  induction ws generalizing w with
  | nil => rw [dotted_singleton]; rfl
  | cons w' ws ih =>
    rw [List.forall_mem_cons] at h
    have hname := shorthandName_dotted (List.cons_ne_nil w' ws) h.2
    rw [lastInWord_cons, ← ih h.2, dotted_cons_cons, endsInWord, endsInWord,
      List.getLast?_append, hname.getLast?_cons, hname.getLast?_or]

/-- Words behind dots stay, or a first one of them becomes the clause of a context. -/
theorem contextSegments_dots (known : List String) (attached : Bool) (words : List (List Char))
    (rest : List Segment) :
    contextSegments known attached (words.map (.word '.') ++ rest) =
        words.map (.word '.') ++ contextSegments known (lastInWord attached words) rest ∨
      ∃ front name behind more, words = front ++ name :: behind ∧
        contextSegments known attached (words.map (.word '.') ++ rest) =
          front.map (.word '.') ++ .clause contextAttribute name :: more := by
  induction words generalizing attached with
  | nil => exact .inl rfl
  | cons w ws ih =>
    rw [List.map_cons, List.cons_append, contextSegments, lastInWord_cons]
    split
    · exact .inr ⟨[], w, ws, _, rfl, rfl⟩
    · rcases ih (endsInWord w) with hstay | ⟨front, name, behind, more, rfl, heq⟩
      · rw [hstay]
        exact .inl rfl
      · rw [heq]
        exact .inr ⟨w :: front, name, behind, more, rfl, rfl⟩

/-! ## The shorthands that stay -/

/-- The number of identifiers among shorthands. -/
def identifierCount (items : List Shorthand) : Nat :=
  items.countP fun item => item.identifier?.isSome

theorem identifierCount_identifier (name : String) (items : List Shorthand) :
    identifierCount (.identifier name :: items) = identifierCount items + 1 :=
  List.countP_cons_of_pos rfl

theorem identifierCount_pos_iff {items : List Shorthand} :
    0 < identifierCount items ↔ (items.findSome? Shorthand.identifier?).isSome = true := by
  rw [identifierCount, List.countP_pos_iff, List.findSome?_isSome_iff]

theorem identifierCount_concat (name : String) (items : List Shorthand) :
    identifierCount (items ++ [.identifier name]) = identifierCount items + 1 := by
  rw [identifierCount, List.countP_append]
  rfl

/-- The shorthands `items` that leading words are the text of, and the segments `rest` behind them:
either the words end between two shorthands, or they end inside an identifier, of which the front
part is left. -/
inductive Kept (known : List String) :
    (shorthands items : List Shorthand) → (rest : List Segment) → Prop
  | between (items more : List Shorthand) (attached attached' : Bool) :
      Kept known (items ++ more) items
        (contextSegments known attached' (shorthandSegments attached more))
  | inside (items more : List Shorthand) {name front : String} (context : List Char)
      (rest : List Segment) (hfront : (Shorthand.identifier front).IsValid) (hne : front ≠ name) :
      Kept known (items ++ .identifier name :: more) (items ++ [.identifier front])
        (.clause contextAttribute context :: rest)

section
variable {known : List String} {shorthands items : List Shorthand} {rest : List Segment}

theorem Kept.cons (item : Shorthand) (h : Kept known shorthands items rest) :
    Kept known (item :: shorthands) (item :: items) rest := by
  cases h with
  | between items more attached attached' => exact .between (item :: items) more attached attached'
  | inside items more context rest hfront hne =>
    exact .inside (item :: items) more context rest hfront hne

/-- The leading words of a row of segments are the text of shorthands that are kept, with one `#`
for each identifier. -/
def LeadsWithKept (known : List String) (shorthands : List Shorthand) (segments : List Segment) :
    Prop :=
  ∃ items, segmentsText (segments.takeWhile Segment.isWord) = shorthandsText items ∧
    (segments.takeWhile Segment.isWord).countP Segment.isHash = identifierCount items ∧
    Kept known shorthands items (segments.dropWhile Segment.isWord)

theorem LeadsWithKept.context {segments : List Segment}
    (h : LeadsWithKept known shorthands segments) (name : String) :
    LeadsWithKept known (.context name :: shorthands) (.word '.' name.toList :: segments) := by
  obtain ⟨items, htext, hcount, hkept⟩ := h
  refine ⟨.context name :: items, ?_, hcount, hkept.cons _⟩
  rw [shorthandsText_cons, toList_text_context, ← htext]
  rfl

theorem LeadsWithKept.identifier {segments : List Segment}
    (h : LeadsWithKept known shorthands segments) {name : String} {w : List Char}
    {ws : List (List Char)} (hname : name.toList = dotted (w :: ws))
    (hwords : ∀ x ∈ w :: ws, NameWord x) :
    LeadsWithKept known (.identifier name :: shorthands)
      (.word '#' w :: (ws.map (.word '.') ++ segments)) := by
  obtain ⟨items, htext, hcount, hkept⟩ := h
  have htake : (Segment.word '#' w :: (ws.map (.word '.') ++ segments)).takeWhile Segment.isWord =
      refusedSegments (dotted (w :: ws)) ++ segments.takeWhile Segment.isWord := by
    rw [List.takeWhile_cons_of_pos rfl, takeWhile_dots, refusedSegments_dotted hwords]
    rfl
  refine ⟨.identifier name :: items, ?_, ?_, ?_⟩
  · rw [htake, segmentsText_append, segmentsText_refusedSegments hwords, htext, shorthandsText_cons,
      toList_text_identifier, hname]
  · rw [htake, List.countP_append, hcount, refusedSegments_dotted hwords,
      List.countP_cons_of_pos rfl, countP_isHash_dots, identifierCount_identifier]
    omega
  · rw [List.dropWhile_cons_of_pos rfl, dropWhile_dots]
    exact hkept.cons _

/-- The front part of an identifier is shorter than the identifier. -/
theorem dotted_ne_append (w : List Char) (front : List (List Char)) (v : List Char)
    (behind : List (List Char)) : dotted (w :: front) ≠ dotted (w :: (front ++ v :: behind)) := by
  intro h
  rw [dotted_cons_eq, dotted_cons_eq, List.flatMap_append, List.flatMap_cons] at h
  have hnil := List.self_eq_append_right.1 (List.append_cancel_left h)
  cases hnil

theorem LeadsWithKept.inside (shorthands : List Shorthand) {name : String} {w v : List Char}
    {front behind : List (List Char)} (hname : name.toList = dotted (w :: (front ++ v :: behind)))
    (hwords : ∀ x ∈ w :: (front ++ v :: behind), NameWord x) (more : List Segment) :
    LeadsWithKept known (.identifier name :: shorthands)
      (.word '#' w :: (front.map (.word '.') ++ .clause contextAttribute v :: more)) := by
  have hfront : ∀ x ∈ w :: front, NameWord x := by
    intro x hx
    refine hwords x ?_
    rcases List.mem_cons.1 hx with rfl | hx
    · exact List.mem_cons_self
    · exact List.mem_cons_of_mem _ (List.mem_append_left _ hx)
  have htext : (String.ofList (dotted (w :: front))).toList = dotted (w :: front) :=
    String.toList_ofList
  have htake : (Segment.word '#' w :: (front.map (.word '.') ++
      .clause contextAttribute v :: more)).takeWhile Segment.isWord =
        refusedSegments (dotted (w :: front)) := by
    rw [List.takeWhile_cons_of_pos rfl, takeWhile_dots, refusedSegments_dotted hfront,
      List.takeWhile_cons_of_neg Bool.false_ne_true, List.append_nil]
  refine ⟨[] ++ [.identifier (String.ofList (dotted (w :: front)))], ?_, ?_, ?_⟩
  · rw [htake, segmentsText_refusedSegments hfront, List.nil_append, shorthandsText_cons,
      toList_text_identifier, htext]
    simp
  · rw [htake, refusedSegments_dotted hfront, List.countP_cons, countP_isHash_dots]
    rfl
  · rw [List.dropWhile_cons_of_pos rfl, dropWhile_dots,
      List.dropWhile_cons_of_neg Bool.false_ne_true]
    refine .inside [] shorthands v more ?_ ?_
    · rw [isValid_identifier_iff]
      exact ⟨w :: front, List.cons_ne_nil w front, hfront, htext⟩
    · intro heq
      refine dotted_ne_append w front v behind ?_
      rw [← htext, heq, hname]

/-- **The shorthands that stay** are those in front of the first one that is expanded, and the
front part of this one if it is an identifier of which a word is expanded. -/
theorem leadsWithKept (hvalid : ∀ item ∈ shorthands, item.IsValid) (attached : Bool) :
    LeadsWithKept known shorthands
      (contextSegments known attached (shorthandSegments attached shorthands)) := by
  induction shorthands generalizing attached with
  | nil => exact ⟨[], rfl, rfl, .between [] [] attached attached⟩
  | cons item rest ih =>
    -- where the first segment is a clause, nothing is kept
    have hclause : ∀ {attr name more}, contextSegments known attached
        (shorthandSegments attached (item :: rest)) = .clause attr name :: more →
        LeadsWithKept known (item :: rest) (.clause attr name :: more) := by
      intro attr name more heq
      refine ⟨[], rfl, rfl, ?_⟩
      rw [List.dropWhile_cons_of_neg Bool.false_ne_true, ← heq]
      exact .between [] (item :: rest) attached attached
    rw [List.forall_mem_cons] at hvalid
    cases item with
    | context name =>
      rw [shorthandSegments, contextSegments] at hclause ⊢
      split
      · rename_i hexpands
        rw [if_pos hexpands] at hclause
        exact hclause rfl
      · exact (ih hvalid.2 _).context name
    | identifier name =>
      obtain ⟨words, hne, hwords, hname⟩ := isValid_identifier_iff.1 hvalid.1
      cases attached with
      | true => exact hclause rfl
      | false =>
        cases words with
        | nil => exact absurd rfl hne
        | cons w ws =>
          have hends := endsInWord_dotted hwords
          rw [← hname] at hends
          have hsegments : contextSegments known false
              (shorthandSegments false (.identifier name :: rest)) =
                .word '#' w :: contextSegments known (endsInWord w)
                  (ws.map (.word '.') ++ shorthandSegments (endsInWord name.toList) rest) := by
            rw [shorthandSegments, hname, refusedSegments_dotted hwords]
            rfl
          rw [hsegments]
          rcases contextSegments_dots known (endsInWord w) ws
              (shorthandSegments (endsInWord name.toList) rest) with
            hstay | ⟨front, v, behind, more, rfl, heq⟩
          · rw [hstay, ← hends]
            exact (ih hvalid.2 _).identifier hname hwords
          · rw [heq]
            exact .inside rest hname hwords more

/-! ## Rows without words -/

/-- Where no word is left, every shorthand has become its clause. -/
theorem contextSegments_of_forall_clause {attached attached' : Bool}
    (hvalid : ∀ item ∈ items, item.IsValid)
    (h : ∀ s ∈ contextSegments known attached' (shorthandSegments attached items),
      s.isWord = false) :
    contextSegments known attached' (shorthandSegments attached items) =
      items.map (Shorthand.expandedSegment known) := by
  induction items generalizing attached attached' with
  | nil => rfl
  | cons item rest ih =>
    rw [List.forall_mem_cons] at hvalid
    cases item with
    | context name =>
      rw [shorthandSegments, contextSegments, List.forall_mem_cons] at h
      rw [shorthandSegments, contextSegments, ih hvalid.2 h.2, List.map_cons]
      obtain ⟨hhead, _⟩ := h
      split at hhead
      · rename_i hexpands
        have hknown : known.contains name = true := by
          rw [String.ofList_toList, Bool.and_eq_true] at hexpands
          exact hexpands.2
        rw [if_pos hexpands, Shorthand.expandedSegment, if_pos hknown]
      · cases hhead
    | identifier name =>
      cases attached with
      | true =>
        rw [shorthandSegments, if_pos rfl, List.singleton_append, contextSegments,
          List.forall_mem_cons] at h
        rw [shorthandSegments, if_pos rfl, List.singleton_append, contextSegments,
          ih hvalid.2 h.2]
        rfl
      | false =>
        -- an identifier that is not attached leaves a word behind `#`
        obtain ⟨words, hne, hwords, hname⟩ := isValid_identifier_iff.1 hvalid.1
        cases words with
        | nil => exact absurd rfl hne
        | cons w ws =>
          rw [shorthandSegments, hname, refusedSegments_dotted hwords] at h
          have hhash := h (.word '#' w) List.mem_cons_self
          cases hhash

/-! ## Shorthands in order -/

theorem separated_append_left {more : List Shorthand} (h : Separated (items ++ more)) :
    Separated items := by
  induction items with
  | nil => trivial
  | cons item rest ih =>
    cases rest with
    | nil => trivial
    | cons next others => exact ⟨h.1, ih h.2⟩

theorem separated_concat_identifier {more : List Shorthand} {name : String}
    (h : Separated (items ++ .identifier name :: more)) (front : String) :
    Separated (items ++ [.identifier front]) := by
  induction items with
  | nil => trivial
  | cons item rest ih =>
    cases rest with
    | nil =>
      refine ⟨?_, trivial⟩
      cases item <;> trivial
    | cons next others => exact ⟨h.1, ih h.2⟩

/-- Behind an identifier stand identifiers only. -/
theorem isSome_identifier?_of_separated {name : String}
    (h : Separated (.identifier name :: items)) :
    ∀ item ∈ items, item.identifier?.isSome = true := by
  induction items generalizing name with
  | nil => simp
  | cons item rest ih =>
    rw [List.forall_mem_cons]
    cases item with
    | context name' => exact h.1.elim
    | identifier name' => exact ⟨rfl, ih h.2⟩

/-- Behind shorthands with an identifier among them stand identifiers only. -/
theorem isSome_identifier?_of_pos {more : List Shorthand} (h : Separated (items ++ more))
    (hpos : 0 < identifierCount items) : ∀ item ∈ more, item.identifier?.isSome = true := by
  induction items with
  | nil => cases hpos
  | cons item rest ih =>
    cases item with
    | context name => exact ih (separated_tail h) hpos
    | identifier name =>
      intro item hitem
      exact isSome_identifier?_of_separated h item (List.mem_append_right rest hitem)

theorem Kept.isValid (h : Kept known shorthands items rest)
    (hvalid : ∀ item ∈ shorthands, item.IsValid) : ∀ item ∈ items, item.IsValid := by
  cases h with
  | between items more => exact (List.forall_mem_append.1 hvalid).1
  | inside items more context rest hfront hne =>
    rw [List.forall_mem_append, List.forall_mem_singleton]
    exact ⟨(List.forall_mem_append.1 hvalid).1, hfront⟩

theorem Kept.separated (h : Kept known shorthands items rest) (hsep : Separated shorthands) :
    Separated items := by
  cases h with
  | between items more => exact separated_append_left hsep
  | inside items more context rest hfront hne => exact separated_concat_identifier hsep _

end

/-! ## The expanded selector as it is read -/

section
variable {known : List String} {selector : String} {c : Compound} {items : List Shorthand}

/-- The parts of the expanded selector: the shorthands that are kept, and in front of the clauses
those that stand for shorthands. -/
def Compound.reread (known : List String) (items : List Shorthand) (c : Compound) : Compound :=
  { c with
    shorthands := items
    clauses := (c.trailing known).filterMap Segment.clause? ++ c.clauses }

theorem isValid_trailing (h : c.IsValid) (known : List String) :
    ∀ s ∈ c.trailing known, s.IsValid := fun s hs =>
  isValid_looseSegments h known s ((List.dropWhile_suffix _).mem hs)

/-- The text of the expanded selector, from the leading words on. -/
theorem looseText_eq
    (htext : segmentsText (c.leadingWords known) = shorthandsText items) :
    c.looseText known = c.tag.toList ++ (shorthandsText items ++
      (segmentsText (c.trailing known) ++ (clausesText c.clauses ++ stateText c.state))) := by
  have hsegments : c.leadingWords known ++ c.trailing known = c.looseSegments known :=
    List.takeWhile_append_dropWhile
  rw [Compound.looseText, ← hsegments, segmentsText_append, htext, List.append_assoc]

theorem trim_normalize (h : parseCompound selector = .ok c) :
    trim (normalize known selector).toList = c.looseText known := by
  obtain ⟨htext, hvalid⟩ := parseCompound_ok h
  rw [toList_normalize, trim_normalizeChars, normalizeChars_eq hvalid htext]

/-- **Clauses only.**  Where clauses only are trailing, the expanded selector is read. -/
theorem isReadingOf_normalize (h : parseCompound selector = .ok c)
    (htext : segmentsText (c.leadingWords known) = shorthandsText items)
    (hkept : Kept known c.shorthands items (c.trailing known))
    (hordered : ∀ s ∈ c.trailing known, s.isWord = false) :
    (c.reread known items).IsReadingOf (normalize known selector) := by
  obtain ⟨_, hvalid⟩ := parseCompound_ok h
  have hclauses := isValid_filterMap_clause? (isValid_trailing hvalid known)
  refine ⟨⟨hvalid.tag, hkept.isValid hvalid.shorthands, hkept.separated hvalid.separated, ?_,
    hvalid.state⟩, ?_⟩
  · refine List.forall_mem_append.2 ⟨fun clause hclause => ?_, hvalid.clauses⟩
    exact (hclauses clause hclause).1
  · rw [trim_normalize h, looseText_eq htext, segmentsText_of_forall_clause hordered,
      Compound.toList_text]
    simp [Compound.reread, clausesText]

/-- A row of segments with a word in it is clauses and a mark behind them. -/
theorem exists_mark_of_not_forall {segments : List Segment} (hvalid : ∀ s ∈ segments, s.IsValid)
    (h : ¬∀ s ∈ segments, s.isWord = false) :
    ∃ front mark more, (∀ clause ∈ front, clause.IsValid) ∧ (mark = '#' ∨ mark = '.') ∧
      segmentsText segments = clausesText front ++ mark :: more := by
  induction segments with
  | nil => exact absurd (by simp) h
  | cons segment rest ih =>
    rw [List.forall_mem_cons] at hvalid
    cases segment with
    | clause attr name =>
      rw [List.forall_mem_cons, not_and] at h
      obtain ⟨front, mark, more, hfront, hmark, htext⟩ := ih hvalid.2 (h rfl)
      refine ⟨shorthandClause attr name :: front, mark, more, ?_, hmark, ?_⟩
      · exact List.forall_mem_cons.2 ⟨isValid_shorthandClause hvalid.1.1 hvalid.1.2, hfront⟩
      · rw [segmentsText_cons, htext, Segment.text, ← toList_text_shorthandClause, clausesText_cons,
          List.append_assoc]
    | word mark name =>
      refine ⟨[], mark, name ++ segmentsText rest, by simp, hvalid.1.1, ?_⟩
      rw [segmentsText_cons]
      rfl

/-- **A word behind a clause.**  Where a word is trailing, the expanded selector is not read. -/
theorem exists_error_normalize (h : parseCompound selector = .ok c)
    (htext : segmentsText (c.leadingWords known) = shorthandsText items)
    (hkept : Kept known c.shorthands items (c.trailing known))
    (hunordered : ¬∀ s ∈ c.trailing known, s.isWord = false) :
    ∃ column, parseCompound (normalize known selector) = .error column := by
  obtain ⟨_, hvalid⟩ := parseCompound_ok h
  have htail : EndsRow (segmentsText (c.trailing known) ++
      (clausesText c.clauses ++ stateText c.state)) :=
    endsRow_dropWhile (c.looseSegments known)
      (endsRow_clausesText c.clauses (endsRow_stateText c.state) hvalid.clauses)
  obtain ⟨front, mark, more, hfront, hmark, hrest⟩ :=
    exists_mark_of_not_forall (isValid_trailing hvalid known) hunordered
  have hclauses : readClauses (segmentsText (c.trailing known) ++
      (clausesText c.clauses ++ stateText c.state)) =
        .ok (front, mark :: (more ++ (clausesText c.clauses ++ stateText c.state))) := by
    rw [hrest, List.append_assoc]
    refine readClauses_append hfront ?_
    rcases hmark with rfl | rfl <;> rfl
  have hstate : ∀ s, readState (mark :: s) = .error (mark :: s) := by
    rcases hmark with rfl | rfl
    · exact fun _ => rfl
    · exact fun _ => rfl
  have hread : ∃ blamed, readCompound (c.looseText known) = .error blamed := by
    rw [looseText_eq htext, readCompound_append hvalid.tag (hkept.isValid hvalid.shorthands)
      (hkept.separated hvalid.separated) htail, hclauses]
    simp only [hstate, bind, Except.bind]
    exact ⟨_, rfl⟩
  obtain ⟨blamed, hblamed⟩ := hread
  refine ⟨columnOf (c.looseText known) blamed, ?_⟩
  rw [parseCompound]
  simp only [trim_normalize h, hblamed]
  rfl

/-! ## What the expanded selector aims at -/

/-- The expanded selector differs from the selector at most in context and identifier. -/
theorem target_reread_eq_iff (hvalid : c.IsValid) :
    (c.reread known items).target known = c.target known ↔
      ((c.reread known items).target known).context = (c.target known).context ∧
        ((c.reread known items).target known).identifier = (c.target known).identifier := by
  have hconsumed : ((c.trailing known).filterMap Segment.clause?).filter (! ·.isConsumed) = [] := by
    rw [List.filter_eq_nil_iff]
    intro clause hclause
    simp [(isValid_filterMap_clause? (isValid_trailing hvalid known) clause hclause).2]
  have hattributes : ((c.reread known items).target known).attributes =
      (c.target known).attributes := by
    simp only [Compound.target, Compound.reread]
    rw [List.filter_append, hconsumed, List.nil_append]
  constructor
  · intro h
    rw [h]
    exact ⟨rfl, rfl⟩
  · rintro ⟨hcontext, hidentifier⟩
    rw [Compound.target, Compound.target, Target.mk.injEq]
    exact ⟨rfl, hcontext, hidentifier, rfl, hattributes⟩

/-- Where the words end between two shorthands, nothing is lost. -/
theorem target_reread_of_between {more : List Shorthand} (hvalid : c.IsValid)
    (hmore : ∀ item ∈ more, item.IsValid) (hshorthands : c.shorthands = items ++ more)
    (htrailing : c.trailing known = more.map (Shorthand.expandedSegment known)) :
    (c.reread known items).target known = c.target known := by
  rw [target_reread_eq_iff hvalid]
  simp only [Compound.target, Compound.reread, htrailing, hshorthands, List.findSome?_append]
  constructor
  · rw [findSome?_filterMap_expandedSegment more fun item hitem =>
      valueOf?_context_expandedSegment (hmore item hitem) known, Option.or_assoc]
  · rw [findSome?_filterMap_expandedSegment more fun item hitem =>
      valueOf?_identifier_expandedSegment (hmore item hitem) known, Option.or_assoc]

/-- Where they end inside an identifier, the front part of it and the context behind count. -/
theorem target_reread_of_inside {name front : String} {more : List Shorthand} {context : List Char}
    {rest : List Segment} (hvalid : c.IsValid)
    (hshorthands : c.shorthands = items ++ .identifier name :: more)
    (htrailing : c.trailing known = .clause contextAttribute context :: rest)
    (hne : front ≠ name) :
    (c.reread known (items ++ [.identifier front])).target known = c.target known ↔
      0 < identifierCount items ∧
        (c.target known).context = (c.shorthands.findSome? (Shorthand.context? known)).or
          (some (String.ofList context)) := by
  have hname : ShorthandName context := by
    refine (isValid_trailing hvalid known (.clause contextAttribute context) ?_).2
    rw [htrailing]
    exact List.mem_cons_self
  have hmore : more.findSome? (Shorthand.context? known) = none := by
    have hsep := hvalid.separated
    rw [hshorthands, List.append_cons] at hsep
    rw [List.findSome?_eq_none_iff]
    intro item hitem
    have hidentifier := isSome_identifier?_of_pos hsep (by rw [identifierCount_concat]; omega)
      item hitem
    cases item with
    | context name => cases hidentifier
    | identifier name => rfl
  have hcontexts : c.shorthands.findSome? (Shorthand.context? known) =
      items.findSome? (Shorthand.context? known) := by
    rw [hshorthands, List.findSome?_append, List.findSome?_cons, hmore]
    exact Option.or_none
  have hcontext : ((c.reread known (items ++ [.identifier front])).target known).context =
      (items.findSome? (Shorthand.context? known)).or (some (String.ofList context)) := by
    have hclauses : (c.reread known (items ++ [.identifier front])).clauses =
        shorthandClause contextAttribute context ::
          (rest.filterMap Segment.clause? ++ c.clauses) := by
      rw [Compound.reread, htrailing]
      rfl
    rw [Compound.target, hclauses, List.findSome?_cons, valueOf?_shorthandClause _ hname,
      Compound.reread, List.findSome?_append]
    exact congrArg (Option.or · _) Option.or_none
  have hidentifier : ((c.reread known (items ++ [.identifier front])).target known).identifier =
      (items.findSome? Shorthand.identifier?).or (some front) := by
    simp only [Compound.target, Compound.reread]
    rw [List.findSome?_append, Option.or_assoc]
    rfl
  have hold : (c.target known).identifier =
      (items.findSome? Shorthand.identifier?).or (some name) := by
    simp only [Compound.target]
    rw [hshorthands, List.findSome?_append, Option.or_assoc]
    rfl
  rw [target_reread_eq_iff hvalid, hcontext, hcontexts, hidentifier, hold, identifierCount_pos_iff,
    and_comm]
  refine and_congr ?_ eq_comm
  cases items.findSome? Shorthand.identifier? <;> simp [hne]

/-- When an expanded selector is read, and aims at what the selector aims at. -/
structure Compound.ExpandsAlike (known : List String) (c : Compound) : Prop where
  /-- Behind the first clause that stands for a shorthand stand no words. -/
  ordered : ∀ s ∈ c.trailing known, s.isWord = false
  /-- Where a context is torn off an identifier that stays, another identifier stays in front of it,
  and a shorthand names a context, or else a clause names this one. -/
  torn : ∀ context, (c.trailing known).head? = some (.clause contextAttribute context) →
    0 < (c.leadingWords known).countP Segment.isHash →
      1 < (c.leadingWords known).countP Segment.isHash ∧
        (c.target known).context = (c.shorthands.findSome? (Shorthand.context? known)).or
          (some (String.ofList context))

/-- Where clauses only are behind the leading words, the reread selector has the target of the
selector exactly if nothing is torn off. -/
theorem target_reread_eq_iff_expandsAlike (hvalid : c.IsValid)
    (hcount : (c.leadingWords known).countP Segment.isHash = identifierCount items)
    (hkept : Kept known c.shorthands items (c.trailing known))
    (hordered : ∀ s ∈ c.trailing known, s.isWord = false) :
    (c.reread known items).target known = c.target known ↔ c.ExpandsAlike known := by
  generalize hshorthands : c.shorthands = shorthands at hkept
  generalize htrailing : c.trailing known = rest at hkept
  cases hkept with
  | between items more attached attached' =>
    have hmore : ∀ item ∈ more, item.IsValid := by
      have hall := hvalid.shorthands
      rw [hshorthands, List.forall_mem_append] at hall
      exact hall.2
    have hclauses : c.trailing known = more.map (Shorthand.expandedSegment known) := by
      rw [htrailing] at hordered ⊢
      exact contextSegments_of_forall_clause hmore hordered
    refine iff_of_true (target_reread_of_between hvalid hmore hshorthands hclauses)
      ⟨hordered, fun context hhead hpos => ?_⟩
    -- behind an identifier stand identifiers, none of which becomes the clause of a context
    rw [hcount] at hpos
    have hsep := hvalid.separated
    rw [hshorthands] at hsep
    have hidentifiers := isSome_identifier?_of_pos hsep hpos
    rw [hclauses] at hhead
    cases more with
    | nil => cases hhead
    | cons item others =>
      have hidentifier := hidentifiers item List.mem_cons_self
      cases item with
      | context name => cases hidentifier
      | identifier name =>
        rw [List.map_cons, List.head?_cons, Option.some.injEq, Shorthand.expandedSegment,
          Segment.clause.injEq] at hhead
        exact absurd hhead.1 (by decide)
  | inside items more context rest hfront hne =>
    rw [target_reread_of_inside hvalid hshorthands htrailing hne]
    rw [identifierCount_concat] at hcount
    constructor
    · rintro ⟨hpos, hcontext⟩
      refine ⟨hordered, fun context' hhead _ => ?_⟩
      rw [htrailing, List.head?_cons, Option.some.injEq, Segment.clause.injEq] at hhead
      rw [hcount, ← hhead.2]
      exact ⟨by omega, hcontext⟩
    · intro h
      obtain ⟨hmany, hcontext⟩ := h.torn context (by rw [htrailing]; rfl) (by omega)
      exact ⟨by omega, hcontext⟩

/-- Expanding keeps the strict reading of a selector that the strict reader accepts exactly if no
word is left behind a clause, and no context is torn off that would count, or off an identifier
that counts. -/
theorem strictTarget_normalize_iff_expandsAlike (h : parseCompound selector = .ok c) :
    strictTarget known (normalize known selector) = strictTarget known selector ↔
      c.ExpandsAlike known := by
  obtain ⟨_, hvalid⟩ := parseCompound_ok h
  have hleads : LeadsWithKept known c.shorthands (c.looseSegments known) :=
    leadsWithKept hvalid.shorthands true
  obtain ⟨items, htext, hcount, hkept⟩ := hleads
  have hstrict : strictTarget known selector = .ok (c.target known) := by
    rw [strictTarget, h]
    rfl
  by_cases hordered : ∀ s ∈ c.trailing known, s.isWord = false
  · have hread := parseCompound_eq_ok_iff.2 (isReadingOf_normalize h htext hkept hordered)
    have hagain : strictTarget known (normalize known selector) =
        .ok ((c.reread known items).target known) := by
      rw [strictTarget, hread]
      rfl
    rw [hagain, hstrict, Except.ok.injEq]
    exact target_reread_eq_iff_expandsAlike hvalid hcount hkept hordered
  · obtain ⟨column, herror⟩ := exists_error_normalize h htext hkept hordered
    rw [hstrict, strictTarget, herror]
    refine iff_of_false ?_ fun halike => hordered halike.ordered
    rintro ⟨⟩

end

/-! ## Attached shorthands -/

/-- Whether a shorthand is a context that is not known. -/
def Shorthand.isUnknown (known : List String) : Shorthand → Bool
  | .context name => !known.contains name
  | .identifier _ => false

section
variable {known : List String} {c : Compound}

theorem Shorthand.isWord_expandedSegment (known : List String) (item : Shorthand) :
    (item.expandedSegment known).isWord = item.isUnknown known := by
  cases item with
  | context name =>
    rw [Shorthand.expandedSegment, Shorthand.isUnknown]
    cases known.contains name <;> rfl
  | identifier name => rfl

theorem Shorthand.isHash_expandedSegment (known : List String) (item : Shorthand) :
    (item.expandedSegment known).isHash = false := by
  cases item with
  | context name =>
    rw [Shorthand.expandedSegment]
    cases known.contains name <;> rfl
  | identifier name => rfl

/-- Nothing of a kind is left behind what is dropped exactly if this kind stands in front. -/
theorem forall_mem_dropWhile_iff {α : Type} {p : α → Bool} {l : List α} :
    (∀ a ∈ l.dropWhile p, p a = false) ↔ l.Pairwise fun a b => p b = true → p a = true := by
  induction l with
  | nil => simp
  | cons a rest ih =>
    rw [List.pairwise_cons]
    cases ha : p a with
    | true =>
      rw [List.dropWhile_cons_of_pos ha, ih]
      exact ⟨fun h => ⟨fun _ _ _ => rfl, h⟩, And.right⟩
    | false =>
      rw [List.dropWhile_cons_of_neg (by rw [ha]; exact Bool.false_ne_true), List.forall_mem_cons]
      constructor
      · rintro ⟨_, hrest⟩
        have hnone : ∀ b ∈ rest, p b = true → False := by
          intro b hb htrue
          rw [hrest b hb] at htrue
          cases htrue
        exact ⟨fun b hb htrue => (hnone b hb htrue).elim,
          List.pairwise_of_forall_mem_list fun _ _ b hb htrue => (hnone b hb htrue).elim⟩
      · rintro ⟨hrest, _⟩
        exact ⟨ha, fun b hb => Bool.eq_false_iff.2 fun htrue => by cases hrest b hb htrue⟩

/-- **Attached shorthands.**  Where every name with a shorthand behind it ends in a word character,
expanding keeps the target exactly if no unknown context stands behind a known one or an
identifier. -/
theorem expandsAlike_iff_of_attached
    (hattached : ∀ item ∈ c.shorthands.dropLast, endsInWord item.name.toList = true) :
    c.ExpandsAlike known ↔
      c.shorthands.Pairwise fun a b => b.isUnknown known = true → a.isUnknown known = true := by
  have hrow := Compound.looseSegments_of_attached known hattached
  have hordered : (∀ s ∈ c.trailing known, s.isWord = false) ↔
      c.shorthands.Pairwise fun a b => b.isUnknown known = true → a.isUnknown known = true := by
    rw [Compound.trailing, forall_mem_dropWhile_iff, hrow, List.pairwise_map]
    simp only [Shorthand.isWord_expandedSegment]
  have hhash : (c.leadingWords known).countP Segment.isHash = 0 := by
    rw [List.countP_eq_zero]
    intro segment hsegment
    have hmem := (List.takeWhile_prefix Segment.isWord).mem hsegment
    rw [hrow] at hmem
    obtain ⟨item, _, rfl⟩ := List.mem_map.1 hmem
    rw [Shorthand.isHash_expandedSegment]
    exact Bool.false_ne_true
  rw [← hordered]
  refine ⟨fun h => h.ordered, fun h => ⟨h, fun context _ hpos => ?_⟩⟩
  rw [hhash] at hpos
  cases hpos

/-! ## Expansion and the strict reading -/

/-- **Expanding keeps the strict reading** of a selector that the strict reader accepts exactly if
no word is left behind a clause, and no context is torn off that would count, or off an identifier
that counts.  Where every name with a shorthand behind it ends in a word character, this is so
exactly if no unknown context stands behind a known one or an identifier. -/
theorem strictTarget_normalize_eq_iff {selector : String} (h : parseCompound selector = .ok c) :
    (strictTarget known (normalize known selector) = strictTarget known selector ↔
      c.ExpandsAlike known) ∧
    ((∀ item ∈ c.shorthands.dropLast, endsInWord item.name.toList = true) →
      (strictTarget known (normalize known selector) = strictTarget known selector ↔
        c.shorthands.Pairwise fun a b => b.isUnknown known = true → a.isUnknown known = true)) := by
  refine ⟨strictTarget_normalize_iff_expandsAlike h, fun hattached => ?_⟩
  rw [strictTarget_normalize_iff_expandsAlike h, expandsAlike_iff_of_attached hattached]

/-- The unknown context stands in front of the identifier, so expanding keeps the target. -/
theorem strictTarget_normalize_eq_iff_primary :
    let selector := "button.primary#send"
    let c : Compound := ⟨"button", [.context "primary", .identifier "send"], [], none⟩
    parseCompound selector = .ok c ∧
      (∀ item ∈ c.shorthands.dropLast, endsInWord item.name.toList = true) ∧
      strictTarget standardContexts (normalize standardContexts selector) =
        strictTarget standardContexts selector ∧
      c.ExpandsAlike standardContexts ∧
      strictTarget standardContexts selector = .ok ⟨"button", none, some "send", none, []⟩ := by
  intro selector c
  have hparse : parseCompound selector = .ok c := eq_ok_of_toOption (by decide +kernel)
  have hattached : ∀ item ∈ c.shorthands.dropLast, endsInWord item.name.toList = true := by decide
  have hkept : strictTarget standardContexts (normalize standardContexts selector) =
      strictTarget standardContexts selector :=
    ((strictTarget_normalize_eq_iff hparse).2 hattached).2 (by decide)
  exact ⟨hparse, hattached, hkept, (strictTarget_normalize_eq_iff hparse).1.1 hkept,
    eq_ok_of_toOption (by decide +kernel)⟩

/-- A known context in front of an unknown one is expanded, and the strict reader does not accept
the result. -/
theorem exists_strictTarget_normalize_ne :
    ∃ target, strictTarget standardContexts "button.chat.primary" = .ok target ∧
      strictTarget standardContexts (normalize standardContexts "button.chat.primary") ≠
        .ok target := by
  refine ⟨⟨"button", some "chat", none, none, []⟩, eq_ok_of_toOption (by decide +kernel), ?_⟩
  intro h
  have hrefused : (strictTarget standardContexts
      (normalize standardContexts "button.chat.primary")).toOption = none := by decide +kernel
  rw [h] at hrefused
  cases hrefused

end

end StyleCascade

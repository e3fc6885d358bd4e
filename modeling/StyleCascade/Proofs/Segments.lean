import StyleCascade.Proofs.Expansion
import StyleCascade.Proofs.StrictReading

/-!
# What expansion makes of shorthands

The shorthands of a selector of the grammar become a row of segments: the clauses that stand for
them, and words with a mark in front where they stay.  The passes of the expansion ask whether a
shorthand is attached, that is, whether the segment in front of it ends in a word character or a
bracket; the strict reader does not ask.

* `Segment` — a clause that stands for a shorthand, or a mark and a word.
* `shorthandSegments` — the segments that the first pass makes of shorthands.
* `contextSegments` — what the second pass makes of segments.
* `normalizeChars_eq` — the two passes, applied to a selector of the grammar, make these
  segments.
-/

namespace StyleCascade

open StyleCascade.Text StyleCascade.Selector

/-! ## Segments -/

/-- What is left of a shorthand after a pass. -/
inductive Segment where
  /-- The clause of an attribute, which stands for a shorthand. -/
  | clause (attr : String) (name : List Char)
  /-- A word with `#` or a dot in front. -/
  | word (mark : Char) (name : List Char)
  deriving Repr, DecidableEq

namespace Segment

/-- A segment as it is written. -/
def text : Segment → List Char
  | .clause attr name => equalsClause attr name
  | .word mark name => mark :: name

/-- The clause, if the segment is one. -/
def clause? : Segment → Option AttributeClause
  | .clause attr name => some ⟨attr, .equals, some (String.ofList name)⟩
  | .word _ _ => none

/-- The segment holds words of the grammar. -/
def IsValid : Segment → Prop
  | .clause attr name => (attr = contextAttribute ∨ attr = identifierAttribute) ∧ ShorthandName name
  | .word mark name => (mark = '#' ∨ mark = '.') ∧ NameWord name

end Segment

/-- The text of segments one behind the other. -/
def segmentsText (segments : List Segment) : List Char := segments.flatMap Segment.text

@[simp] theorem segmentsText_nil : segmentsText [] = [] := rfl

@[simp] theorem segmentsText_cons (segment : Segment) (segments : List Segment) :
    segmentsText (segment :: segments) = segment.text ++ segmentsText segments :=
  List.flatMap_cons

/-! ## The segments of a selector -/

/-- Whether a name ends in a word character, so that a shorthand behind it is attached. -/
def endsInWord (name : List Char) : Bool := name.getLast?.any isWord

/-- The words of an identifier that the first pass refuses: one behind `#`, the others behind
dots. -/
def refusedSegments (name : List Char) : List Segment :=
  match name.splitOn '.' with
  | [] => []
  | word :: words => .word '#' word :: words.map (.word '.')

/-- The segments that the first pass makes of shorthands: a clause of every identifier that is
attached. -/
def shorthandSegments : (attached : Bool) → List Shorthand → List Segment
  | _, [] => []
  | _, .context name :: rest =>
    .word '.' name.toList :: shorthandSegments (endsInWord name.toList) rest
  | attached, .identifier name :: rest =>
    (if attached then [.clause identifierAttribute name.toList]
      else refusedSegments name.toList) ++ shorthandSegments (endsInWord name.toList) rest

/-- Whether a row of segments starts with `#`. -/
def startsWithHash : List Segment → Bool
  | .word mark _ :: _ => mark == '#'
  | _ => false

/-- What the second pass makes of segments: a clause of every known context that is attached and
does not stand in front of `#`. -/
def contextSegments (known : List String) : (attached : Bool) → List Segment → List Segment
  | _, [] => []
  | _, .clause attr name :: rest => .clause attr name :: contextSegments known true rest
  | attached, .word mark name :: rest =>
    (if mark == '.' && attached && !startsWithHash rest && known.contains (String.ofList name) then
      .clause contextAttribute name
    else .word mark name) :: contextSegments known (endsInWord name) rest

/-- What the two passes leave of the shorthands of a selector. -/
def Compound.looseSegments (known : List String) (c : Compound) : List Segment :=
  contextSegments known true (shorthandSegments true c.shorthands)

/-! ## Facts about segments -/

theorem segmentsText_append (segments more : List Segment) :
    segmentsText (segments ++ more) = segmentsText segments ++ segmentsText more :=
  List.flatMap_append

theorem segmentsText_dots (words : List (List Char)) :
    segmentsText (words.map (.word '.')) = words.flatMap ('.' :: ·) := by
  rw [segmentsText, List.flatMap_map]
  rfl

theorem canPrecedeShorthand_getLast? {name : List Char} (h : ShorthandName name) :
    canPrecedeShorthand name.getLast? = endsInWord name := by
  obtain ⟨c, hlast, hc⟩ := h.getLast?
  have hne : (c == ']') = false := by simpa using ne_of_isName hc (by decide)
  rw [endsInWord, hlast, canPrecedeShorthand, hne, Bool.or_false]
  rfl

/-- The words behind a first one, joined by dots. -/
theorem dotted_cons_eq (w : List Char) (ws : List (List Char)) :
    dotted (w :: ws) = w ++ ws.flatMap ('.' :: ·) := by
  induction ws generalizing w with
  | nil => simp
  | cons w' ws ih => rw [dotted_cons_cons, ih, List.flatMap_cons, List.cons_append]

theorem refusedSegments_dotted {w : List Char} {ws : List (List Char)}
    (h : ∀ x ∈ w :: ws, NameWord x) :
    refusedSegments (dotted (w :: ws)) = .word '#' w :: ws.map (.word '.') := by
  have hsplit : (dotted (w :: ws)).splitOn '.' = w :: ws :=
    List.splitOn_intercalate '.' (fun x hx => (h x hx).dot_not_mem) (List.cons_ne_nil w ws)
  rw [refusedSegments, hsplit]

/-- A refused identifier stays as it is written. -/
theorem segmentsText_refusedSegments {w : List Char} {ws : List (List Char)}
    (h : ∀ x ∈ w :: ws, NameWord x) :
    segmentsText (refusedSegments (dotted (w :: ws))) = '#' :: dotted (w :: ws) := by
  rw [refusedSegments_dotted h, segmentsText_cons, segmentsText_dots, dotted_cons_eq]
  rfl

/-! ## What stands behind a shorthand -/

/-- A text that can follow a row of shorthands. -/
def EndsRow (tail : List Char) : Prop := ∀ c ∈ tail.head?, c = '[' ∨ c = ':'

theorem endsDotted_of_endsOrStartsWith {s : List Char}
    (h : endsOrStartsWith [':', '[', '#'] s = true) : EndsDotted s := by
  cases s with
  | nil => rfl
  | cons c cs =>
    have hc : c = ':' ∨ c = '[' ∨ c = '#' := by simpa [endsOrStartsWith] using h
    rcases hc with rfl | rfl | rfl
    · exact endsDotted_of_ne (by decide) (by decide) cs
    · exact endsDotted_of_ne (by decide) (by decide) cs
    · exact endsDotted_of_ne (by decide) (by decide) cs

/-- Behind an identifier of the grammar stands what may stand behind one. -/
theorem endsOrStartsWith_of_separated {name : String} {rest : List Shorthand} {tail : List Char}
    (hsep : Separated (.identifier name :: rest)) (htail : EndsRow tail) :
    endsOrStartsWith [':', '[', '#'] (shorthandsText rest ++ tail) = true := by
  cases rest with
  | nil =>
    cases tail with
    | nil => rfl
    | cons c cs =>
      rcases htail c rfl with rfl | rfl
      · rfl
      · rfl
  | cons item items =>
    cases item with
    | context name' => exact hsep.1.elim
    | identifier name' =>
      rw [shorthandsText_cons, toList_text_identifier]
      rfl

theorem separated_tail {item : Shorthand} {items : List Shorthand}
    (h : Separated (item :: items)) : Separated items := by
  cases items with
  | nil => trivial
  | cons next others => exact h.2

/-! ## The first pass -/

/-- An identifier that is not attached stays as it is written. -/
theorem expands_refused {before : Option Char} {name rest out : List Char}
    (hname : ShorthandName name) (hbefore : canPrecedeShorthand before = false)
    (hrest : Expands identifierShorthand identifierAttribute name.getLast? rest out) :
    Expands identifierShorthand identifierAttribute before ('#' :: (name ++ rest))
      ('#' :: (name ++ out)) := by
  have hnone : identifierShorthand before ('#' :: (name ++ rest)) = none := by
    rw [Option.eq_none_iff_forall_ne_some]
    rintro ⟨name', rest'⟩ hsome
    obtain ⟨_, _, _, hcan, _⟩ := identifierShorthand_eq_some_iff.1 hsome
    rw [hbefore] at hcan
    cases hcan
  exact .of_marked abbreviates_identifier hname (by decide)
    (hname.not_mem (by decide) (by decide)) hnone hrest

/-- **The first pass makes these segments.** -/
theorem expands_shorthandSegments {before : Option Char} {shorthands : List Shorthand}
    {tail : List Char} (hvalid : ∀ item ∈ shorthands, item.IsValid) (hsep : Separated shorthands)
    (htail : EndsRow tail)
    (hself : ∀ before, Expands identifierShorthand identifierAttribute before tail tail) :
    Expands identifierShorthand identifierAttribute before (shorthandsText shorthands ++ tail)
      (segmentsText (shorthandSegments (canPrecedeShorthand before) shorthands) ++ tail) := by
  induction shorthands generalizing before with
  | nil => exact hself before
  | cons item items ih =>
    rw [List.forall_mem_cons] at hvalid
    have hitems : ∀ before, Expands identifierShorthand identifierAttribute before
        (shorthandsText items ++ tail)
        (segmentsText (shorthandSegments (canPrecedeShorthand before) items) ++ tail) :=
      fun before => ih hvalid.2 (separated_tail hsep)
    cases item with
    | context name =>
      have hname := shorthandName_of_nameWord (isNameWord_iff.1 hvalid.1)
      rw [shorthandsText_cons, toList_text_context, shorthandSegments, segmentsText_cons,
        List.append_assoc, List.append_assoc]
      have hrest := hitems name.toList.getLast?
      rw [canPrecedeShorthand_getLast? hname] at hrest
      exact .of_marked abbreviates_identifier hname (by decide)
        (hname.not_mem (by decide) (by decide))
        (abbreviates_identifier.eq_none_of_ne (by decide)) hrest
    | identifier name =>
      obtain ⟨words, hne, hwords, heq⟩ := isValid_identifier_iff.1 hvalid.1
      have hname : ShorthandName name.toList := heq ▸ shorthandName_dotted hne hwords
      have hends := endsOrStartsWith_of_separated hsep htail
      rw [shorthandsText_cons, toList_text_identifier, shorthandSegments, segmentsText_append,
        List.append_assoc, List.append_assoc, List.cons_append,
        ← canPrecedeShorthand_getLast? hname]
      cases hcan : canPrecedeShorthand before with
      | true =>
        have hspan : dottedSpan (name.toList ++ (shorthandsText items ++ tail)) =
            (name.toList, shorthandsText items ++ tail) := by
          rw [heq]
          exact dottedSpan_dotted_append hwords (endsDotted_of_endsOrStartsWith hends)
        have hhead : (name.toList ++ (shorthandsText items ++ tail)).head?.any isName = true := by
          rw [heq]
          exact head_isName_dotted hne hwords _
        rw [if_pos rfl, segmentsText_cons, segmentsText_nil, List.append_nil]
        exact .shorthand
          (identifierShorthand_eq_some_iff.2 ⟨_, rfl, hspan, hcan, hhead, hends⟩)
          (hitems name.toList.getLast?)
      | false =>
        cases words with
        | nil => exact absurd rfl hne
        | cons w ws =>
          have htext : segmentsText (refusedSegments name.toList) = '#' :: name.toList := by
            rw [heq, segmentsText_refusedSegments hwords]
          rw [if_neg Bool.false_ne_true, htext, List.cons_append]
          exact expands_refused hname hcan (hitems name.toList.getLast?)

/-! ## The segments of the first pass -/

theorem isValid_refusedSegments {w : List Char} {ws : List (List Char)}
    (h : ∀ x ∈ w :: ws, NameWord x) :
    ∀ segment ∈ refusedSegments (dotted (w :: ws)), segment.IsValid := by
  rw [List.forall_mem_cons] at h
  rw [refusedSegments_dotted (List.forall_mem_cons.2 h), List.forall_mem_cons]
  refine ⟨⟨.inl rfl, h.1⟩, ?_⟩
  intro segment hsegment
  obtain ⟨x, hx, rfl⟩ := List.mem_map.1 hsegment
  exact ⟨.inr rfl, h.2 x hx⟩

theorem isValid_shorthandSegments {attached : Bool} {shorthands : List Shorthand}
    (hvalid : ∀ item ∈ shorthands, item.IsValid) :
    ∀ segment ∈ shorthandSegments attached shorthands, segment.IsValid := by
  induction shorthands generalizing attached with
  | nil => simp [shorthandSegments]
  | cons item items ih =>
    rw [List.forall_mem_cons] at hvalid
    cases item with
    | context name =>
      rw [shorthandSegments, List.forall_mem_cons]
      exact ⟨⟨.inr rfl, isNameWord_iff.1 hvalid.1⟩, ih hvalid.2⟩
    | identifier name =>
      obtain ⟨words, hne, hwords, heq⟩ := isValid_identifier_iff.1 hvalid.1
      have hname : ShorthandName name.toList := heq ▸ shorthandName_dotted hne hwords
      rw [shorthandSegments, List.forall_mem_append]
      refine ⟨?_, ih hvalid.2⟩
      cases attached with
      | true =>
        rw [if_pos rfl, List.forall_mem_singleton]
        exact ⟨.inr rfl, hname⟩
      | false =>
        cases words with
        | nil => exact absurd rfl hne
        | cons w ws =>
          rw [if_neg Bool.false_ne_true, heq]
          exact isValid_refusedSegments hwords

/-! ## The second pass -/

/-- Behind a word stands nothing that continues it. -/
theorem stopsAt_segmentsText {segments : List Segment} (hvalid : ∀ s ∈ segments, s.IsValid)
    {tail : List Char} (htail : EndsRow tail) :
    StopsAt isName (segmentsText segments ++ tail) := by
  cases segments with
  | nil =>
    intro c hc
    rcases htail c hc with rfl | rfl
    · decide
    · decide
  | cons segment rest =>
    have hsegment := hvalid segment List.mem_cons_self
    cases segment with
    | clause attr name =>
      rw [segmentsText_cons, Segment.text, equalsClause_eq]
      exact stopsAt_cons.2 (by decide)
    | word mark name =>
      rw [segmentsText_cons, Segment.text]
      rcases hsegment.1 with rfl | rfl
      · exact stopsAt_cons.2 (by decide)
      · exact stopsAt_cons.2 (by decide)

/-- In front of `#` no context is a shorthand, in front of everything else it is. -/
theorem endsOrStartsWith_segmentsText {segments : List Segment}
    (hvalid : ∀ s ∈ segments, s.IsValid) {tail : List Char} (htail : EndsRow tail) :
    endsOrStartsWith ['.', ':', '['] (segmentsText segments ++ tail) =
      !startsWithHash segments := by
  cases segments with
  | nil =>
    cases tail with
    | nil => rfl
    | cons c cs =>
      rcases htail c rfl with rfl | rfl
      · rfl
      · rfl
  | cons segment rest =>
    have hsegment := hvalid segment List.mem_cons_self
    cases segment with
    | clause attr name =>
      rw [segmentsText_cons, Segment.text, equalsClause_eq]
      rfl
    | word mark name =>
      rw [segmentsText_cons, Segment.text]
      rcases hsegment.1 with rfl | rfl
      · rfl
      · rfl

/-- A word becomes a clause in the second pass exactly where `contextSegments` says so. -/
theorem knownContext_word_iff {known : List String} {before : Option Char} {mark : Char}
    {name : List Char} {rest : List Segment} {tail : List Char} (hname : NameWord name)
    (hvalid : ∀ s ∈ rest, s.IsValid) (htail : EndsRow tail) (found : List Char × List Char) :
    knownContext known before (mark :: (name ++ (segmentsText rest ++ tail))) = some found ↔
      found = (name, segmentsText rest ++ tail) ∧
        (mark == '.' && canPrecedeShorthand before && !startsWithHash rest &&
          known.contains (String.ofList name)) = true := by
  have hspan : nameSpan (name ++ (segmentsText rest ++ tail)) =
      (name, segmentsText rest ++ tail) :=
    nameSpan_append_of_stopsAt hname.2 (stopsAt_segmentsText hvalid htail)
  obtain ⟨found, behind⟩ := found
  rw [← endsOrStartsWith_segmentsText hvalid htail]
  simp only [Bool.and_eq_true, beq_iff_eq]
  constructor
  · intro h
    obtain ⟨hshort, hknown⟩ := knownContext_eq_some_iff.1 h
    obtain ⟨cs, heq, hspan', hcan, _, hends⟩ := contextShorthand_eq_some_iff.1 hshort
    obtain ⟨rfl, rfl⟩ := List.cons.inj heq
    rw [hspan] at hspan'
    obtain ⟨rfl, rfl⟩ := Prod.mk.inj hspan'
    exact ⟨rfl, ⟨⟨rfl, hcan⟩, hends⟩, hknown⟩
  · rintro ⟨heq, ⟨⟨rfl, hcan⟩, hends⟩, hknown⟩
    obtain ⟨rfl, rfl⟩ := Prod.mk.inj heq
    exact knownContext_eq_some_iff.2
      ⟨contextShorthand_eq_some_iff.2 ⟨_, rfl, hspan, hcan, hname.1, hends⟩, hknown⟩

/-- **The second pass makes these segments.** -/
theorem expands_contextSegments {known : List String} {before : Option Char}
    {segments : List Segment} {tail : List Char} (hvalid : ∀ s ∈ segments, s.IsValid)
    (htail : EndsRow tail)
    (hself : ∀ before, Expands (knownContext known) contextAttribute before tail tail) :
    Expands (knownContext known) contextAttribute before (segmentsText segments ++ tail)
      (segmentsText (contextSegments known (canPrecedeShorthand before) segments) ++ tail) := by
  have habbr := abbreviates_knownContext known
  induction segments generalizing before with
  | nil => exact hself before
  | cons segment rest ih =>
    rw [List.forall_mem_cons] at hvalid
    cases segment with
    | clause attr name =>
      have hpiece : IsClause (equalsClause attr name) := by
        rcases hvalid.1.1 with rfl | rfl
        · exact isClause_equalsClause habbr hvalid.1.2.quote_not_mem
        · exact isClause_equalsClause abbreviates_identifier hvalid.1.2.quote_not_mem
      have hrest : Expands (knownContext known) contextAttribute (some ']')
          (segmentsText rest ++ tail) (segmentsText (contextSegments known true rest) ++ tail) :=
        ih hvalid.2
      rw [contextSegments, segmentsText_cons, segmentsText_cons, List.append_assoc,
        List.append_assoc]
      exact .clause hpiece hrest
    | word mark name =>
      have hname := shorthandName_of_nameWord hvalid.1.2
      have hrest : Expands (knownContext known) contextAttribute name.getLast?
          (segmentsText rest ++ tail)
          (segmentsText (contextSegments known (endsInWord name) rest) ++ tail) := by
        rw [← canPrecedeShorthand_getLast? hname]
        exact ih hvalid.2
      rw [contextSegments, segmentsText_cons, segmentsText_cons, List.append_assoc,
        List.append_assoc]
      split
      · rename_i hexpands
        exact .shorthand
          ((knownContext_word_iff hvalid.1.2 hvalid.2 htail _).2 ⟨rfl, hexpands⟩) hrest
      · rename_i hstays
        have hnone : knownContext known before
            (mark :: (name ++ (segmentsText rest ++ tail))) = none := by
          rw [Option.eq_none_iff_forall_ne_some]
          intro found hsome
          exact hstays ((knownContext_word_iff hvalid.1.2 hvalid.2 htail found).1 hsome).2
        have hmark : mark ≠ '[' := by
          rcases hvalid.1.1 with rfl | rfl
          · decide
          · decide
        exact .of_marked habbr hname hmark hvalid.1.2.dot_not_mem hnone hrest

theorem isValid_contextSegments {known : List String} {attached : Bool}
    {segments : List Segment} (hvalid : ∀ s ∈ segments, s.IsValid) :
    ∀ s ∈ contextSegments known attached segments, s.IsValid := by
  induction segments generalizing attached with
  | nil => simp [contextSegments]
  | cons segment rest ih =>
    rw [List.forall_mem_cons] at hvalid
    cases segment with
    | clause attr name =>
      rw [contextSegments, List.forall_mem_cons]
      exact ⟨hvalid.1, ih hvalid.2⟩
    | word mark name =>
      rw [contextSegments, List.forall_mem_cons]
      refine ⟨?_, ih hvalid.2⟩
      split
      · exact ⟨.inl rfl, shorthandName_of_nameWord hvalid.1.2⟩
      · exact hvalid.1

/-! ## Clauses and the state -/

theorem token_plain (op : ClauseOperator) : ∀ c ∈ op.token.toList, c ≠ ']' ∧ c ≠ '"' := by
  refine forall_mem_of_all (fun _ => ne_of_isPlain) ?_
  cases op <;> decide

/-- A clause of the grammar is a clause. -/
theorem isClause_text {clause : AttributeClause} (h : clause.IsValid) :
    IsClause clause.text.toList := by
  obtain ⟨name, hname, hcases⟩ := h.exists_name
  have hplain : ∀ c ∈ name.toList, c ≠ ']' ∧ c ≠ '"' := by
    intro c hc
    have hc' := isName_of_mem_attributeName hname c hc
    exact ⟨ne_of_isName hc' (by decide), ne_of_isName hc' (by decide)⟩
  rcases hcases with rfl | ⟨op, text, hop, hquote, rfl⟩
  · rw [AttributeClause.toList_text_present]
    exact isClause_name hplain
  · have hfront : ∀ c ∈ name.toList ++ op.token.toList, c ≠ ']' ∧ c ≠ '"' := by
      intro c hc
      rcases List.mem_append.1 hc with hc | hc
      · exact hplain c hc
      · exact token_plain op c hc
    have htext := isClause_value hfront hquote
    rw [AttributeClause.toList_text_of_ne hop]
    simpa using htext

theorem not_mem_stateText {state : Option String} (h : ∀ name ∈ state, IsNameWord name) {c : Char}
    (hc : isName c = false) (hcolon : c ≠ ':') : c ∉ stateText state := by
  cases state with
  | none => exact List.not_mem_nil
  | some name => exact not_mem_mark_cons (h name rfl).2 hc hcolon

theorem endsRow_stateText (state : Option String) : EndsRow (stateText state) := by
  cases state with
  | none => simp [EndsRow, stateText]
  | some name => simp [EndsRow, stateText]

theorem endsRow_clausesText (clauses : List AttributeClause) {tail : List Char}
    (htail : EndsRow tail) (hvalid : ∀ clause ∈ clauses, clause.IsValid) :
    EndsRow (clausesText clauses ++ tail) := by
  cases clauses with
  | nil => exact htail
  | cons clause rest =>
    obtain ⟨text, htext⟩ := (isClause_text (hvalid clause List.mem_cons_self)).exists_cons
    rw [clausesText_cons, htext]
    rintro _ ⟨⟩
    exact .inl rfl

section
variable {mark : Char} {shorthand : Recognizer (List Char)} {attr : String}

theorem expands_stateText (h : Abbreviates mark shorthand attr) {state : Option String}
    (hvalid : ∀ name ∈ state, IsNameWord name) (before : Option Char) :
    Expands shorthand attr before (stateText state) (stateText state) := by
  have hcolon : mark ≠ ':' := by
    rcases h.mark_eq with rfl | rfl
    · decide
    · decide
  have hrun : Expands shorthand attr before (stateText state ++ []) (stateText state ++ []) :=
    .of_run h (not_mem_stateText hvalid (by decide) (by decide))
      (not_mem_stateText hvalid h.mark_ne.2.2.2 hcolon) .nil
  rw [List.append_nil] at hrun
  exact hrun

/-- The passes leave clauses and a state as they are. -/
theorem expands_clausesText {clauses : List AttributeClause}
    (hvalid : ∀ clause ∈ clauses, clause.IsValid)
    {tail : List Char} (htail : ∀ before, Expands shorthand attr before tail tail)
    (before : Option Char) :
    Expands shorthand attr before (clausesText clauses ++ tail) (clausesText clauses ++ tail) := by
  induction clauses generalizing before with
  | nil => exact htail before
  | cons clause rest ih =>
    rw [List.forall_mem_cons] at hvalid
    rw [clausesText_cons, List.append_assoc]
    exact .clause (isClause_text hvalid.1) (ih hvalid.2 (some ']'))

/-- The tag stands for itself, and the first shorthand is attached to it. -/
theorem Selector.Expands.of_tag (h : Abbreviates mark shorthand attr) {tag : String}
    (htag : IsTag tag) {s out : List Char}
    (hs : ∀ before, canPrecedeShorthand before = true → Expands shorthand attr before s out) :
    Expands shorthand attr none (tag.toList ++ s) (tag.toList ++ out) := by
  have hname := isName_of_mem_tag htag
  refine .of_run h (not_mem_of_isName hname (by decide))
    (not_mem_of_isName hname h.mark_ne.2.2.2) ?_
  rw [Option.or_none]
  refine hs _ ?_
  rw [List.getLast?_eq_some_getLast htag.ne_nil, canPrecedeShorthand,
    isWord_of_mem_tag htag _ (List.getLast_mem htag.ne_nil), Bool.true_or]

end

/-! ## A whole selector -/

/-- The text of a selector of the grammar with its shorthands expanded. -/
def Compound.looseText (known : List String) (c : Compound) : List Char :=
  c.tag.toList ++ (segmentsText (c.looseSegments known) ++
    (clausesText c.clauses ++ stateText c.state))

/-- **Expansion of a selector of the grammar.**  The tag, the clauses and the state stay, and the
shorthands become the segments that the two passes make. -/
theorem normalizeChars_eq {known : List String} {c : Compound} (hvalid : c.IsValid)
    {s : List Char} (htext : trim s = c.text.toList) :
    normalizeChars known s = c.looseText known := by
  have htail : EndsRow (clausesText c.clauses ++ stateText c.state) :=
    endsRow_clausesText c.clauses (endsRow_stateText c.state) hvalid.clauses
  have hid : expandIdentifiers (trim s) = c.tag.toList ++
      (segmentsText (shorthandSegments true c.shorthands) ++
        (clausesText c.clauses ++ stateText c.state)) := by
    rw [htext, Compound.toList_text]
    refine expandIdentifiers_eq (.of_tag abbreviates_identifier hvalid.tag ?_)
    intro before hcan
    rw [← hcan]
    refine expands_shorthandSegments hvalid.shorthands hvalid.separated htail ?_
    exact expands_clausesText hvalid.clauses
      (expands_stateText abbreviates_identifier hvalid.state)
  rw [normalizeChars, hid]
  have habbr := abbreviates_knownContext known
  refine expandContexts_eq (.of_tag habbr hvalid.tag ?_)
  intro before hcan
  rw [Compound.looseSegments, ← hcan]
  refine expands_contextSegments (isValid_shorthandSegments hvalid.shorthands) htail ?_
  exact expands_clausesText hvalid.clauses (expands_stateText habbr hvalid.state)

theorem isValid_looseSegments {c : Compound} (hvalid : c.IsValid) (known : List String) :
    ∀ s ∈ c.looseSegments known, s.IsValid :=
  isValid_contextSegments (isValid_shorthandSegments hvalid.shorthands)

end StyleCascade

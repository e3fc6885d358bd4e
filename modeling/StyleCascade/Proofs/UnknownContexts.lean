import Mathlib.Data.List.TakeWhile
import StyleCascade.Check.Selectors
import StyleCascade.Proofs.ExpandedReading
import StyleCascade.Proofs.Words

/-!
# Contexts that are not known

A context that is not known is never expanded, and a check warns of it.  The check looks at the
expanded selector without its clauses, where it takes the dotted names directly behind the tag
for unknown contexts.  It sees no further than to the first shorthand that is expanded and to the
first identifier, and it takes a known context that was not expanded for an unknown one.

* `leadingContexts` — the contexts that stay as they are written directly behind the tag;
  `unexpandedContexts_eq` — these are what the check finds.
* `Compound.unknownContexts` — the contexts that it should find.
* `filter_contexts_eq` — the findings about a selector of the grammar.
* `Compound.UnknownsLead`, `findings_eq_unknownContexts_iff` — when the check finds the unknown
  contexts and nothing else.
* `unknownsLead_iff_of_attached` — where all shorthands are attached, it does so exactly if the
  unknown contexts stand in front.
-/

namespace StyleCascade

open StyleCascade.Text StyleCascade.Selector

/-! ## Runs between dots -/

namespace Text

/-- Words with a dot in front of each are read back. -/
theorem runs_dots {words : List (List Char)} (h : ∀ w ∈ words, NameWord w) :
    runs (· == '.') (words.flatMap ('.' :: ·)) = words := by
  induction words with
  | nil => rfl
  | cons w ws ih =>
    rw [List.forall_mem_cons] at h
    have hgap : ∀ c ∈ w, (c == '.') = false := by
      intro c hc
      simpa using ne_of_isName (h.1.2 c hc) (by decide)
    have hhead : (ws.flatMap ('.' :: ·)).head?.all (· == '.') = true := by cases ws <;> rfl
    rw [List.flatMap_cons, List.cons_append, runs, if_pos (beq_self_eq_true '.'),
      runs_append_of_isGap h.1.1 hgap hhead, ih h.2]

end Text

/-! ## Where no tag starts -/

section
variable {before : Option Char} {s : List Char}

theorem taggedContexts_of_mayPrecedeTag (h : mayPrecedeTag before = false) (s : List Char) :
    taggedContexts before s = none := by
  simp [taggedContexts, h]

theorem taggedContexts_of_stopsAt (h : StopsAt isWord s) : taggedContexts before s = none := by
  simp [taggedContexts, stopsAt_iff.1 h]

theorem mayPrecedeTag_of_isName {c : Char} (h : isName c = true) :
    mayPrecedeTag (some c) = false := by
  simp [mayPrecedeTag, h]

/-- Inside a name no tag starts. -/
theorem findAllFrom_taggedContexts_name {w : List Char} (hw : ∀ c ∈ w, isName c = true)
    (hbefore : mayPrecedeTag before = false) (s : List Char) :
    findAllFrom taggedContexts before (w ++ s) =
      findAllFrom taggedContexts (w.getLast?.or before) s := by
  induction w generalizing before with
  | nil => rfl
  | cons c cs ih =>
    rw [List.forall_mem_cons] at hw
    rw [List.cons_append, findAllFrom_of_none (taggedContexts_of_mayPrecedeTag hbefore _),
      ih hw.2 (mayPrecedeTag_of_isName hw.1), getLast?_cons_or]

/-- A state is no tag with contexts behind it. -/
theorem findAllFrom_taggedContexts_stateText {state : Option String}
    (h : ∀ name ∈ state, IsNameWord name) (before : Option Char) :
    findAllFrom taggedContexts before (stateText state) = [] := by
  cases state with
  | none => exact findAllFrom_nil before
  | some name =>
    obtain ⟨hne, hname⟩ := isNameWord_iff.1 (h name rfl)
    have hcolon : taggedContexts before (':' :: name.toList) = none :=
      taggedContexts_of_stopsAt (stopsAt_cons.2 (by decide))
    have hdot : (dottedSpan (name.toList.dropWhile isWord)).1.head? ≠ some '.' := by
      intro hhead
      have happend := dottedSpan_append (name.toList.dropWhile isWord)
      have hmem : '.' ∈ name.toList.dropWhile isWord := by
        rw [← happend]
        exact List.mem_append_left _ (List.mem_of_mem_head? hhead)
      exact absurd (hname '.' ((List.dropWhile_suffix isWord).mem hmem)) (by decide)
    have hstart : taggedContexts (some ':') name.toList = none := by
      simp [taggedContexts, hdot]
    rw [stateText, findAllFrom_of_none hcolon]
    cases hlist : name.toList with
    | nil => exact absurd hlist hne
    | cons c cs =>
      rw [hlist, List.forall_mem_cons] at hname
      have hrest := findAllFrom_taggedContexts_name hname.2 (mayPrecedeTag_of_isName hname.1) []
      rw [List.append_nil, findAllFrom_nil] at hrest
      rw [findAllFrom_of_none (by rw [← hlist]; exact hstart), hrest]

/-- Behind the shorthands no tag starts. -/
theorem findAllFrom_taggedContexts_blanks {state : Option String}
    (h : ∀ name ∈ state, IsNameWord name) (n : Nat) (before : Option Char) :
    findAllFrom taggedContexts before (List.replicate n ' ' ++ stateText state) = [] := by
  induction n generalizing before with
  | zero => exact findAllFrom_taggedContexts_stateText h before
  | succ n ih =>
    have hblank : StopsAt isWord (' ' :: (List.replicate n ' ' ++ stateText state)) :=
      stopsAt_cons.2 (by decide)
    rw [List.replicate_succ, List.cons_append,
      findAllFrom_of_none (taggedContexts_of_stopsAt hblank), ih]

/-- Among shorthands no tag starts. -/
theorem findAllFrom_taggedContexts_blanked {segments : List Segment} {state : Option String}
    (hsegments : ∀ s ∈ segments, s.IsValid) (hstate : ∀ name ∈ state, IsNameWord name) (n : Nat)
    (before : Option Char) :
    findAllFrom taggedContexts before
      (segments.flatMap Segment.blanked ++ (List.replicate n ' ' ++ stateText state)) = [] := by
  induction segments generalizing before with
  | nil => exact findAllFrom_taggedContexts_blanks hstate n before
  | cons segment rest ih =>
    rw [List.forall_mem_cons] at hsegments
    rw [List.flatMap_cons, List.append_assoc]
    cases segment with
    | clause attr name =>
      rw [Segment.blanked, List.cons_append, List.nil_append,
        findAllFrom_of_none (taggedContexts_of_stopsAt (stopsAt_cons.2 (by decide))),
        ih hsegments.2]
    | word mark name =>
      obtain ⟨hmark, hname⟩ := hsegments.1
      have hmark' : isWord mark = false ∧ mayPrecedeTag (some mark) = false := by
        rcases hmark with rfl | rfl
        · decide
        · decide
      rw [Segment.blanked, List.cons_append,
        findAllFrom_of_none (taggedContexts_of_stopsAt (stopsAt_cons.2 hmark'.1)),
        findAllFrom_taggedContexts_name hname.2 hmark'.2, ih hsegments.2]

end

/-! ## The contexts behind the tag -/

namespace Segment

/-- Whether a segment is a word behind a dot. -/
def isDot : Segment → Bool
  | .word mark _ => mark == '.'
  | .clause _ _ => false

end Segment

/-- Behind words with dots in front stands nothing that continues them. -/
theorem endsDotted_blanked {segments : List Segment} {state : Option String}
    (hsegments : ∀ s ∈ segments, s.IsValid) (hhead : ∀ s ∈ segments.head?, s.isDot = false)
    (n : Nat) :
    EndsDotted (segments.flatMap Segment.blanked ++ (List.replicate n ' ' ++ stateText state)) := by
  cases segments with
  | nil =>
    cases n with
    | zero =>
      cases state with
      | none => rfl
      | some name => exact endsDotted_of_ne (by decide) (by decide) name.toList
    | succ n => exact endsDotted_of_ne (by decide) (by decide) _
  | cons segment rest =>
    rw [List.forall_mem_cons] at hsegments
    cases segment with
    | clause attr name => exact endsDotted_of_ne (by decide) (by decide) _
    | word mark name =>
      rcases hsegments.1.1 with rfl | rfl
      · exact endsDotted_of_ne (by decide) (by decide) _
      · cases hhead _ rfl

/-- At the tag of a selector the contexts directly behind it are found, if there are any. -/
theorem taggedContexts_tag {tag : String} (htag : IsTag tag) {t : List Char}
    (ht : StopsAt isWord t) :
    taggedContexts none (tag.toList ++ t) =
      if (dottedSpan t).1.head? == some '.' then
        some (runs (· == '.') (dottedSpan t).1, (dottedSpan t).2)
      else none := by
  have hword := isWord_of_mem_tag htag
  obtain ⟨c, cs, htext, -, -⟩ := htag
  have hhead : (tag.toList ++ t).head?.any isWord = true := by
    rw [htext]
    exact hword c (by rw [htext]; exact List.mem_cons_self)
  rw [taggedContexts, dropWhile_append_of_stopsAt hword ht, hhead]
  rfl

/-- **What the check finds** in a tag with words behind dots, in front of a text that does not
continue them: the words. -/
theorem flatten_findAll_taggedContexts {tag : String} (htag : IsTag tag)
    {words : List (List Char)} (hwords : ∀ w ∈ words, NameWord w) {s : List Char}
    (hends : EndsDotted s) (hnone : ∀ before, findAllFrom taggedContexts before s = []) :
    (findAll taggedContexts (tag.toList ++ (words.flatMap ('.' :: ·) ++ s))).flatten = words := by
  have hname := isName_of_mem_tag htag
  rw [findAll_eq_findAllFrom]
  cases words with
  | nil =>
    have hstops : StopsAt isWord s := (endsDotted_iff.1 hends).1.isWord
    have hstart : taggedContexts none (tag.toList ++ s) = none := by
      rw [taggedContexts_tag htag hstops, hends]
      rfl
    rw [List.flatMap_nil, List.nil_append]
    cases htext : tag.toList with
    | nil => exact absurd htext htag.ne_nil
    | cons c cs =>
      rw [htext] at hstart hname
      rw [List.forall_mem_cons] at hname
      have hrest := findAllFrom_taggedContexts_name hname.2 (mayPrecedeTag_of_isName hname.1) s
      rw [List.cons_append] at hstart ⊢
      rw [findAllFrom_of_none hstart, hrest, hnone]
      rfl
  | cons w ws =>
    have hmatched : (w :: ws).flatMap ('.' :: ·) = '.' :: dotted (w :: ws) := by
      rw [dotted_cons_eq, List.flatMap_cons, List.cons_append]
    have hspan : dottedSpan ((w :: ws).flatMap ('.' :: ·) ++ s) =
        ((w :: ws).flatMap ('.' :: ·), s) := by
      rw [hmatched, List.cons_append,
        dottedSpan_dot (head_isName_dotted (List.cons_ne_nil w ws) hwords s),
        dottedSpan_dotted_append hwords hends]
    have hstops : StopsAt isWord ((w :: ws).flatMap ('.' :: ·) ++ s) := by
      rw [hmatched]
      exact stopsAt_cons.2 (by decide)
    have hfound : taggedContexts none (tag.toList ++ (w :: ws).flatMap ('.' :: ·) ++ s) =
        some (w :: ws, s) := by
      rw [List.append_assoc, taggedContexts_tag htag hstops, hspan, runs_dots hwords]
      rfl
    have hmatch : tag.toList ++ (w :: ws).flatMap ('.' :: ·) ≠ [] := by simp
    rw [← List.append_assoc, findAllFrom_found hmatch hfound, hnone]
    simp

/-! ## The contexts that stay -/

/-- The names of the contexts that expansion leaves directly behind the tag: those of the
shorthands up to the first one that is no context or is expanded, that is, a known context that is
attached and does not stand in front of an identifier that is not. -/
def leadingContexts (known : List String) : (attached : Bool) → List Shorthand → List String
  | _, [] => []
  | attached, .context name :: rest =>
    if known.contains name && attached &&
        (endsInWord name.toList || rest.head?.all (·.identifier?.isNone)) then []
    else name :: leadingContexts known (endsInWord name.toList) rest
  | _, .identifier _ :: _ => []

theorem startsWithHash_shorthandSegments (attached : Bool) (items : List Shorthand)
    (hvalid : ∀ item ∈ items, item.IsValid) :
    startsWithHash (shorthandSegments attached items) =
      !(attached || items.head?.all (·.identifier?.isNone)) := by
  cases items with
  | nil => simp [shorthandSegments, startsWithHash]
  | cons item rest =>
    cases item with
    | context name => simp [shorthandSegments, startsWithHash, Shorthand.identifier?]
    | identifier name =>
      cases attached with
      | true => rfl
      | false =>
        rw [List.forall_mem_cons] at hvalid
        obtain ⟨words, hne, hwords, hname⟩ := isValid_identifier_iff.1 hvalid.1
        cases words with
        | nil => exact absurd rfl hne
        | cons w ws =>
          rw [shorthandSegments, hname, if_neg Bool.false_ne_true, refusedSegments_dotted hwords]
          rfl

/-- The words behind dots that expansion leaves in front of everything else. -/
theorem takeWhile_isDot_contextSegments {known : List String} {attached : Bool}
    {items : List Shorthand} (hvalid : ∀ item ∈ items, item.IsValid) :
    (contextSegments known attached (shorthandSegments attached items)).takeWhile Segment.isDot =
      (leadingContexts known attached items).map fun name => .word '.' name.toList := by
  induction items generalizing attached with
  | nil => rfl
  | cons item rest ih =>
    rw [List.forall_mem_cons] at hvalid
    cases item with
    | context name =>
      have hexpands : (('.' : Char) == '.' && attached &&
          !startsWithHash (shorthandSegments (endsInWord name.toList) rest) &&
          known.contains (String.ofList name.toList)) = (known.contains name && attached &&
        (endsInWord name.toList || rest.head?.all (·.identifier?.isNone))) := by
        rw [startsWithHash_shorthandSegments _ _ hvalid.2, String.ofList_toList, beq_self_eq_true,
          Bool.true_and, Bool.not_not, Bool.and_comm, Bool.and_assoc]
      rw [shorthandSegments, contextSegments, hexpands, leadingContexts]
      split
      · rfl
      · rw [List.takeWhile_cons_of_pos rfl, ih hvalid.2]
        rfl
    | identifier name =>
      obtain ⟨words, hne, hwords, hname⟩ := isValid_identifier_iff.1 hvalid.1
      rw [shorthandSegments, leadingContexts]
      cases attached with
      | true => rfl
      | false =>
        cases words with
        | nil => exact absurd rfl hne
        | cons w ws =>
          rw [hname, if_neg Bool.false_ne_true, refusedSegments_dotted hwords]
          rfl

theorem nameWord_of_mem_leadingContexts {known : List String} {attached : Bool}
    {items : List Shorthand} (hvalid : ∀ item ∈ items, item.IsValid) :
    ∀ name ∈ leadingContexts known attached items, NameWord name.toList := by
  induction items generalizing attached with
  | nil => simp [leadingContexts]
  | cons item rest ih =>
    rw [List.forall_mem_cons] at hvalid
    cases item with
    | context name =>
      rw [leadingContexts]
      split
      · simp
      · rw [List.forall_mem_cons]
        exact ⟨isNameWord_iff.1 hvalid.1, ih hvalid.2⟩
    | identifier name => simp [leadingContexts]

/-- **What the check finds** in a selector of the grammar: the contexts that stay behind its tag. -/
theorem unexpandedContexts_eq {known : List String} {selector : String} {c : Compound}
    (h : parseCompound selector = .ok c) :
    unexpandedContexts known selector = leadingContexts known true c.shorthands := by
  obtain ⟨htext, hvalid⟩ := parseCompound_ok h
  have htake : (c.looseSegments known).takeWhile Segment.isDot =
      (leadingContexts known true c.shorthands).map fun name => .word '.' name.toList :=
    takeWhile_isDot_contextSegments hvalid.shorthands
  have hrest : ∀ s ∈ (c.looseSegments known).dropWhile Segment.isDot, s.IsValid :=
    fun s hs => isValid_looseSegments hvalid known s ((List.dropWhile_suffix Segment.isDot).mem hs)
  have hhead : ∀ s ∈ ((c.looseSegments known).dropWhile Segment.isDot).head?, s.isDot = false := by
    intro s hs
    have hnot := List.head?_dropWhile_not Segment.isDot (c.looseSegments known)
    rw [Option.mem_def.1 hs] at hnot
    simpa using hnot
  have hwords : ∀ w ∈ (leadingContexts known true c.shorthands).map String.toList, NameWord w := by
    intro w hw
    obtain ⟨name, hname, rfl⟩ := List.mem_map.1 hw
    exact nameWord_of_mem_leadingContexts hvalid.shorthands name hname
  have hrow : (c.looseSegments known).flatMap Segment.blanked =
      ((leadingContexts known true c.shorthands).map String.toList).flatMap ('.' :: ·) ++
        ((c.looseSegments known).dropWhile Segment.isDot).flatMap Segment.blanked := by
    have hsplit := List.takeWhile_append_dropWhile (p := Segment.isDot)
      (l := c.looseSegments known)
    rw [htake] at hsplit
    calc (c.looseSegments known).flatMap Segment.blanked
        = (((leadingContexts known true c.shorthands).map fun name =>
            Segment.word '.' name.toList) ++
              (c.looseSegments known).dropWhile Segment.isDot).flatMap Segment.blanked := by
          rw [hsplit]
      _ = _ := by
          rw [List.flatMap_append, List.flatMap_map, List.flatMap_map]
          rfl
  rw [unexpandedContexts, normalizeChars_eq hvalid htext, blankClauses_looseText hvalid, hrow,
    List.append_assoc, flatten_findAll_taggedContexts hvalid.tag hwords
      (endsDotted_blanked hrest hhead _)
      (findAllFrom_taggedContexts_blanked hrest hvalid.state _), List.map_map]
  simp

/-! ## The contexts that should be found -/

/-- The name of a context that is not known. -/
def Shorthand.unknown? (known : List String) : Shorthand → Option String
  | .context name => if known.contains name then none else some name
  | .identifier _ => none

/-- The contexts of a selector that are not known, in order. -/
def Compound.unknownContexts (known : List String) (c : Compound) : List String :=
  c.shorthands.filterMap (Shorthand.unknown? known)

/-- Whether the first shorthand that is not an unknown context, where it is a known one, is
expanded: it is attached, and it ends in a word character or no identifier follows. -/
def FirstKnownExpanded (known : List String) (attached : Bool) (items : List Shorthand) : Prop :=
  ∀ front name behind, items = front ++ .context name :: behind →
    (∀ item ∈ front, item.isUnknown known = true) → known.contains name = true →
      lastInWord attached (front.map fun item => item.name.toList) = true ∧
        (endsInWord name.toList = true ∨ ∀ next ∈ behind.head?, next.identifier? = none)

/-- When the contexts that stay behind the tag are the unknown ones. -/
structure Compound.UnknownsLead (known : List String) (c : Compound) : Prop where
  /-- The unknown contexts stand in front of all other shorthands. -/
  leading : c.shorthands.Pairwise fun a b => b.isUnknown known = true → a.isUnknown known = true
  /-- A known context directly behind them is expanded. -/
  expanded : FirstKnownExpanded known true c.shorthands

section
variable {known : List String} {attached : Bool} {name : String} {rest : List Shorthand}

theorem isUnknown_context (known : List String) (name : String) :
    (Shorthand.context name).isUnknown known = !known.contains name :=
  rfl

theorem filterMap_unknown?_eq_nil_iff :
    rest.filterMap (Shorthand.unknown? known) = [] ↔
      ∀ item ∈ rest, ¬item.isUnknown known = true := by
  rw [List.filterMap_eq_nil_iff]
  refine forall₂_congr fun item _ => ?_
  cases item with
  | context name => simp [Shorthand.unknown?, Shorthand.isUnknown]
  | identifier name => simp [Shorthand.unknown?, Shorthand.isUnknown]

theorem unknown?_ne_some (h : known.contains name = true) (item : Shorthand) :
    item.unknown? known ≠ some name := by
  cases item with
  | context other =>
    rw [Shorthand.unknown?]
    split
    · simp
    next hother =>
      rintro ⟨⟩
      exact hother h
  | identifier other => simp [Shorthand.unknown?]

/-- Behind a shorthand that is not an unknown context stands none that is. -/
theorem pairwise_cons_iff_of_not_isUnknown {item : Shorthand} (h : item.isUnknown known = false) :
    ((item :: rest).Pairwise fun a b => b.isUnknown known = true → a.isUnknown known = true) ↔
      rest.filterMap (Shorthand.unknown? known) = [] := by
  rw [List.pairwise_cons, filterMap_unknown?_eq_nil_iff]
  constructor
  · intro hpairwise b hb hunknown
    exact absurd (hpairwise.1 b hb hunknown) (by rw [h]; decide)
  · intro hnone
    refine ⟨fun b hb hunknown => absurd hunknown (hnone b hb), ?_⟩
    exact List.pairwise_of_forall_mem_list fun a _ b hb hunknown => absurd hunknown (hnone b hb)

theorem pairwise_cons_iff_of_isUnknown {item : Shorthand} (h : item.isUnknown known = true) :
    ((item :: rest).Pairwise fun a b => b.isUnknown known = true → a.isUnknown known = true) ↔
      rest.Pairwise fun a b => b.isUnknown known = true → a.isUnknown known = true := by
  simp [h]

theorem firstKnownExpanded_identifier :
    FirstKnownExpanded known attached (.identifier name :: rest) := by
  intro front found behind hitems hfront
  cases front with
  | nil => cases hitems
  | cons item others =>
    obtain ⟨rfl, -⟩ := List.cons.inj hitems
    cases hfront _ List.mem_cons_self

theorem firstKnownExpanded_known (h : known.contains name = true) :
    FirstKnownExpanded known attached (.context name :: rest) ↔
      attached = true ∧
        (endsInWord name.toList = true ∨ ∀ next ∈ rest.head?, next.identifier? = none) := by
  constructor
  · intro hfirst
    exact hfirst [] name rest rfl (by simp) h
  · intro hexpanded front found behind hitems hfront _
    cases front with
    | nil =>
      obtain ⟨hname, rfl⟩ := List.cons.inj hitems
      obtain rfl := Shorthand.context.inj hname
      exact hexpanded
    | cons item others =>
      obtain ⟨rfl, -⟩ := List.cons.inj hitems
      have hunknown := hfront _ List.mem_cons_self
      rw [isUnknown_context, h] at hunknown
      cases hunknown

theorem firstKnownExpanded_unknown (h : known.contains name = false) :
    FirstKnownExpanded known attached (.context name :: rest) ↔
      FirstKnownExpanded known (endsInWord name.toList) rest := by
  have hunknown : (Shorthand.context name).isUnknown known = true := by
    rw [isUnknown_context, h]
    rfl
  constructor
  · intro hfirst front found behind hitems hfront hknown
    have hwhole := hfirst (.context name :: front) found behind (by rw [hitems]; rfl)
      (List.forall_mem_cons.2 ⟨hunknown, hfront⟩) hknown
    rw [List.map_cons, lastInWord_cons] at hwhole
    exact hwhole
  · intro hrest front found behind hitems hfront hknown
    cases front with
    | nil =>
      obtain ⟨hname, -⟩ := List.cons.inj hitems
      obtain rfl := Shorthand.context.inj hname
      rw [h] at hknown
      cases hknown
    | cons item others =>
      obtain ⟨rfl, rfl⟩ := List.cons.inj hitems
      rw [List.map_cons, lastInWord_cons]
      exact hrest others found behind rfl (List.forall_mem_cons.1 hfront).2 hknown

/-- The contexts that stay are the unknown ones if and only if those stand in front and what comes
next is expanded. -/
theorem leadingContexts_eq_iff (attached : Bool) (items : List Shorthand) :
    leadingContexts known attached items = items.filterMap (Shorthand.unknown? known) ↔
      (items.Pairwise fun a b => b.isUnknown known = true → a.isUnknown known = true) ∧
        FirstKnownExpanded known attached items := by
  induction items generalizing attached with
  | nil => simp [leadingContexts, FirstKnownExpanded]
  | cons item rest ih =>
    cases item with
    | identifier name =>
      rw [leadingContexts, List.filterMap_cons_none rfl, eq_comm,
        pairwise_cons_iff_of_not_isUnknown rfl]
      exact (and_iff_left firstKnownExpanded_identifier).symm
    | context name =>
      cases hknown : known.contains name with
      | true =>
        have hskip : (Shorthand.context name).unknown? known = none := by
          rw [Shorthand.unknown?, if_pos hknown]
        have hnot : (Shorthand.context name).isUnknown known = false := by
          rw [isUnknown_context, hknown]
          rfl
        rw [List.filterMap_cons_none hskip, pairwise_cons_iff_of_not_isUnknown hnot,
          firstKnownExpanded_known hknown, leadingContexts, hknown, Bool.true_and]
        split
        next hexpanded =>
          have hcond : attached = true ∧ (endsInWord name.toList = true ∨
              ∀ next ∈ rest.head?, next.identifier? = none) := by
            simpa [Option.all_eq_true] using hexpanded
          rw [eq_comm]
          exact (and_iff_left hcond).symm
        next hstays =>
          -- The known context stays: it is found, and it is none of the unknown ones.
          constructor
          · intro heq
            have hmem : name ∈ rest.filterMap (Shorthand.unknown? known) := by
              rw [← heq]
              exact List.mem_cons_self
            obtain ⟨item, -, hitem⟩ := List.mem_filterMap.1 hmem
            exact absurd hitem (unknown?_ne_some hknown item)
          · rintro ⟨-, hcond⟩
            exact absurd (by simpa [Option.all_eq_true] using hcond) hstays
      | false =>
        have hkeep : (Shorthand.context name).unknown? known = some name := by
          rw [Shorthand.unknown?, hknown, if_neg Bool.false_ne_true]
        have hunknown : (Shorthand.context name).isUnknown known = true := by
          rw [isUnknown_context, hknown]
          rfl
        rw [List.filterMap_cons_some hkeep, pairwise_cons_iff_of_isUnknown hunknown,
          firstKnownExpanded_unknown hknown, leadingContexts, hknown, Bool.false_and,
          Bool.false_and, if_neg Bool.false_ne_true, List.cons_inj_right, ih]

end

/-- Attached shorthands are told exactly if the unknown contexts stand in front. -/
theorem unknownsLead_iff_of_attached {known : List String} {c : Compound}
    (hattached : ∀ item ∈ c.shorthands.dropLast, endsInWord item.name.toList = true) :
    c.UnknownsLead known ↔
      c.shorthands.Pairwise fun a b => b.isUnknown known = true → a.isUnknown known = true := by
  refine ⟨fun h => h.leading, fun h => ⟨h, ?_⟩⟩
  intro front name behind hitems _ _
  rw [hitems] at hattached
  rw [List.dropLast_append_of_ne_nil (List.cons_ne_nil _ behind)] at hattached
  have hfront : lastInWord true (front.map fun item => item.name.toList) = true := by
    rw [lastInWord, List.getLast?_map]
    cases hlast : front.getLast? with
    | none => rfl
    | some item => exact hattached item (List.mem_append_left _ (List.mem_of_getLast? hlast))
  refine ⟨hfront, ?_⟩
  cases behind with
  | nil => exact .inr (by simp)
  | cons next others =>
    rw [List.dropLast_cons_of_ne_nil (List.cons_ne_nil next others)] at hattached
    exact .inl (hattached _ (List.mem_append_right _ List.mem_cons_self))

/-! ## What is reported -/

/-- What is reported about a name in a selector. -/
def contextFinding (config : Config) (selector name : String) : Finding :=
  { check := "check_unknown_context"
    severity := .warning
    message := inQuotes ("." ++ name) ++ " in selector " ++ inQuotes selector ++
      " is not a known context and will be ignored."
    selector := some selector
    fix := some ("Known contexts: " ++ ", ".intercalate config.sortedContexts ++ ".") }

theorem contextFinding_injective (config : Config) (selector : String) :
    Function.Injective (contextFinding config selector) := by
  intro a b h
  have hmessage := congrArg (fun f => f.message.toList) h
  simpa [contextFinding, inQuotes, String.toList_inj] using hmessage

section
variable {definition : Definition} {config : Config} {selector : String} {c : Compound}

theorem contexts_eq (definition : Definition) (config : Config) :
    Check.contexts definition config = definition.selectors.flatMap fun selector =>
      (unexpandedContexts config.knownContexts selector).map (contextFinding config selector) :=
  rfl

/-- What is found about one of several selectors is what it contributes. -/
theorem filter_flatMap_selector {report : String → List Finding}
    (hreport : ∀ s, ∀ f ∈ report s, f.selector = some s) {selectors : List String}
    (hnodup : selectors.Nodup) (hmem : selector ∈ selectors) :
    (selectors.flatMap report).filter (·.selector == some selector) = report selector := by
  have hone : ∀ s, (report s).filter (·.selector == some selector) =
      if s = selector then report s else [] := by
    intro s
    split
    next heq =>
      rw [List.filter_eq_self]
      intro f hf
      rw [hreport s f hf, heq]
      exact beq_self_eq_true _
    next hne =>
      rw [List.filter_eq_nil_iff]
      intro f hf
      rw [hreport s f hf]
      simpa using hne
  induction selectors with
  | nil => cases hmem
  | cons s rest ih =>
    rw [List.nodup_cons] at hnodup
    rw [List.flatMap_cons, List.filter_append, hone]
    rcases List.mem_cons.1 hmem with rfl | hrest
    · have hnone : (rest.flatMap report).filter (·.selector == some selector) = [] := by
        rw [List.filter_eq_nil_iff]
        intro f hf heq
        obtain ⟨s, hs, hf⟩ := List.mem_flatMap.1 hf
        rw [hreport s f hf, beq_iff_eq, Option.some.injEq] at heq
        exact hnodup.1 (heq ▸ hs)
      rw [if_pos rfl, hnone, List.append_nil]
    · have hne : s ≠ selector := fun heq => hnodup.1 (heq ▸ hrest)
      rw [if_neg hne, List.nil_append, ih hnodup.2 hrest]

/-- A selector of the grammar is not blank. -/
theorem allBlank_eq_false (h : parseCompound selector = .ok c) :
    allBlank selector.toList = false := by
  obtain ⟨htext, hvalid⟩ := parseCompound_ok h
  refine Bool.eq_false_iff.2 fun hblank => ?_
  have hstart : trimStart selector.toList = [] :=
    List.dropWhile_eq_nil_iff.2 (List.all_eq_true.1 hblank)
  rw [trim, hstart, Compound.toList_text] at htext
  exact hvalid.tag.ne_nil (List.append_eq_nil_iff.1 htext.symm).1

/-- **The findings about a selector of the grammar** name the contexts that stay behind its tag. -/
theorem filter_contexts_eq (hmem : selector ∈ definition.overrides.names)
    (h : parseCompound selector = .ok c) :
    (Check.contexts definition config).filter (·.selector == some selector) =
      (leadingContexts config.knownContexts true c.shorthands).map
        (contextFinding config selector) := by
  have hreport : ∀ s, ∀ f ∈ (unexpandedContexts config.knownContexts s).map
      (contextFinding config s), f.selector = some s := by
    intro s f hf
    obtain ⟨name, -, rfl⟩ := List.mem_map.1 hf
    rfl
  have hselector : selector ∈ definition.selectors := by
    rw [Definition.selectors, List.mem_filter, allBlank_eq_false h]
    exact ⟨hmem, rfl⟩
  have hnodup : definition.selectors.Nodup := definition.overrides.nodup.filter _
  rw [contexts_eq, filter_flatMap_selector hreport hnodup hselector, unexpandedContexts_eq h]

/-- **Unknown contexts are reported exactly**, one finding for each in order and no others, if and
only if they stand in front of all other shorthands and a known context directly behind them is
expanded.  The latter is so where every name with a shorthand behind it ends in a word
character. -/
theorem findings_eq_unknownContexts_iff (hmem : selector ∈ definition.overrides.names)
    (h : parseCompound selector = .ok c) :
    ((Check.contexts definition config).filter (·.selector == some selector) =
        (c.unknownContexts config.knownContexts).map (contextFinding config selector) ↔
      c.UnknownsLead config.knownContexts) ∧
    ((∀ item ∈ c.shorthands.dropLast, endsInWord item.name.toList = true) →
      (c.UnknownsLead config.knownContexts ↔ c.shorthands.Pairwise fun a b =>
        b.isUnknown config.knownContexts = true → a.isUnknown config.knownContexts = true)) := by
  refine ⟨?_, unknownsLead_iff_of_attached⟩
  rw [filter_contexts_eq hmem h, List.map_inj_right (contextFinding_injective config selector),
    Compound.unknownContexts, leadingContexts_eq_iff]
  exact ⟨fun ⟨hleading, hexpanded⟩ => ⟨hleading, hexpanded⟩,
    fun hlead => ⟨hlead.leading, hlead.expanded⟩⟩

end

/-- The statement at a selector with two unknown contexts in front, among other selectors. -/
theorem findings_eq_unknownContexts_iff_among :
    let selector := " button.foo.x-1.chat#a.b[title=\".none\"]:hover "
    let definition : Definition := { name := "n", overrides := .ofList [("", .null),
      (selector, .mapping []), ("a.foo", .mapping [])] }
    let config : Config := {}
    let c : Compound := ⟨"button", [.context "foo", .context "x-1", .context "chat",
      .identifier "a.b"], [⟨"title", .equals, some ".none"⟩], some "hover"⟩
    selector ∈ definition.overrides.names ∧ parseCompound selector = .ok c ∧
      c.UnknownsLead config.knownContexts ∧
      c.unknownContexts config.knownContexts = ["foo", "x-1"] ∧
      (Check.contexts definition config).filter (·.selector == some selector) =
        (c.unknownContexts config.knownContexts).map (contextFinding config selector) := by
  intro selector definition config c
  have hmem : selector ∈ definition.overrides.names := by decide +kernel
  have hparse : parseCompound selector = .ok c := eq_ok_of_toOption (by decide +kernel)
  obtain ⟨hfindings, hattached⟩ := findings_eq_unknownContexts_iff hmem hparse
  have hlead : c.UnknownsLead config.knownContexts :=
    (hattached (by decide +kernel)).2 (by decide +kernel)
  exact ⟨hmem, hparse, hlead, by decide +kernel, hfindings.2 hlead⟩

/-- Not all unknown contexts are reported: what stands behind a known context is not seen. -/
theorem not_findings_eq_unknownContexts_expanded :
    let selector := "button.chat.primary"
    let definition : Definition :=
      { name := "n", overrides := .ofList [(selector, .mapping [])] }
    let config : Config := {}
    let c : Compound := ⟨"button", [.context "chat", .context "primary"], [], none⟩
    selector ∈ definition.overrides.names ∧ parseCompound selector = .ok c ∧
      c.unknownContexts config.knownContexts = ["primary"] ∧
      Check.contexts definition config = [] ∧
      (Check.contexts definition config).filter (·.selector == some selector) ≠
        (c.unknownContexts config.knownContexts).map (contextFinding config selector) := by
  intro selector definition config c
  have hparse : parseCompound selector = .ok c := eq_ok_of_toOption (by decide +kernel)
  have hunknown : c.unknownContexts config.knownContexts = ["primary"] := by decide +kernel
  have hnone : Check.contexts definition config = [] := by decide +kernel
  refine ⟨by decide +kernel, hparse, hunknown, hnone, ?_⟩
  rw [hnone, hunknown]
  exact List.cons_ne_nil _ _ ∘ Eq.symm

/-- A known context that is not expanded is taken for an unknown one. -/
example : unexpandedContexts standardContexts "button.foo-.chat" = ["foo-", "chat"] := by
  decide +kernel

end StyleCascade

import StyleCascade.Proofs.Brackets
import StyleCascade.Proofs.Scanning
import StyleCascade.Selector.Shorthand

/-!
# Expansion of shorthands

Each of the two passes of the expansion reads a text from left to right and replaces the
shorthands that it finds outside clauses by clauses.  `Expands` says so by rules, one for each
thing that can stand at the head of a text, and a fact about a pass is proved by induction on
them.

* `Abbreviates` — the shape of the shorthands of one kind; `knownContext` is the second kind.
* `Expands` — a text and its expansion; `exists_expands`, `expands_expandIdentifiers`,
  `expands_expandContexts` — the passes are this relation.
* `Expands.eq_or_length_lt` — an expansion is the text itself or a longer one.
* `Expands.of_run` — a run of characters without marks.
* `trim_normalizeChars` — expanding leaves no blanks at the ends.
-/

namespace StyleCascade.Selector

open StyleCascade.Text

/-! ## Kinds of shorthands -/

/-- The name of a shorthand: name characters and dots, and a name character at the end. -/
def ShorthandName (name : List Char) : Prop :=
  (∀ c ∈ name, isName c = true ∨ c = '.') ∧ ∃ u c, name = u ++ [c] ∧ isName c = true

theorem ShorthandName.getLast? {name : List Char} (h : ShorthandName name) :
    ∃ c, name.getLast? = some c ∧ isName c = true := by
  obtain ⟨u, c, rfl, hc⟩ := h.2
  exact ⟨c, by simp, hc⟩

theorem ShorthandName.getLast?_or {name : List Char} (h : ShorthandName name)
    (before : Option Char) : name.getLast?.or before = name.getLast? := by
  obtain ⟨c, hlast, _⟩ := h.getLast?
  rw [hlast]
  rfl

theorem ShorthandName.getLast?_cons {name : List Char} (h : ShorthandName name) (mark : Char) :
    (mark :: name).getLast? = name.getLast? := by
  obtain ⟨c, hlast, _⟩ := h.getLast?
  rw [List.getLast?_cons, hlast]
  rfl

theorem ShorthandName.ne_nil {name : List Char} (h : ShorthandName name) : name ≠ [] := by
  obtain ⟨u, c, rfl, hc⟩ := h.2
  simp

/-- Dots are the only marks that stand in the name of a shorthand. -/
theorem ShorthandName.not_mem {name : List Char} (h : ShorthandName name) {c : Char}
    (hc : isName c = false) (hdot : c ≠ '.') : c ∉ name := by
  intro hmem
  rcases h.1 c hmem with hname | heq
  · exact ne_of_isName hname hc rfl
  · exact hdot heq

theorem ShorthandName.quote_not_mem {name : List Char} (h : ShorthandName name) : '"' ∉ name :=
  h.not_mem (by decide) (by decide)

theorem shorthandName_of_nameWord {w : List Char} (h : NameWord w) : ShorthandName w := by
  refine ⟨fun c hc => .inl (h.2 c hc), w.dropLast, w.getLast h.1, ?_, ?_⟩
  · rw [List.dropLast_concat_getLast]
  · exact h.2 _ (List.getLast_mem h.1)

theorem shorthandName_dotted {words : List (List Char)} (hne : words ≠ [])
    (h : ∀ w ∈ words, NameWord w) : ShorthandName (dotted words) := by
  induction words with
  | nil => exact absurd rfl hne
  | cons w ws ih =>
    rw [List.forall_mem_cons] at h
    cases ws with
    | nil =>
      rw [dotted_singleton]
      exact shorthandName_of_nameWord h.1
    | cons w' ws =>
      obtain ⟨hchars, u, c, hend, hc⟩ := ih (List.cons_ne_nil w' ws) h.2
      rw [dotted_cons_cons]
      refine ⟨?_, w ++ '.' :: u, c, by rw [hend]; simp, hc⟩
      intro d hd
      rcases List.mem_append.1 hd with hd | hd
      · exact .inl (h.1.2 d hd)
      · rcases List.mem_cons.1 hd with rfl | hd
        · exact .inr rfl
        · exact hchars d hd

/-- The shorthands of one kind are a mark and a name behind it, and none stands at the start of
a text.  They are short for clauses of one attribute, whose name has neither brackets nor
quotes. -/
structure Abbreviates (mark : Char) (shorthand : Recognizer (List Char)) (attr : String) :
    Prop where
  mark_eq : mark = '#' ∨ mark = '.'
  attr_plain : ∀ c ∈ attr.toList, c ≠ ']' ∧ c ≠ '"'
  shape : ∀ {before s name rest}, shorthand before s = some (name, rest) →
    s = mark :: (name ++ rest) ∧ ShorthandName name
  start : ∀ s, shorthand none s = none

/-- The shorthand of a known context at the head of a text. -/
def knownContext (known : List String) : Recognizer (List Char) :=
  fun before s => (contextShorthand before s).filter fun p => known.contains (String.ofList p.1)

theorem identifierShorthand_eq_some_iff {before : Option Char} {s name rest : List Char} :
    identifierShorthand before s = some (name, rest) ↔
      ∃ cs, s = '#' :: cs ∧ dottedSpan cs = (name, rest) ∧ canPrecedeShorthand before = true ∧
        cs.head?.any isName = true ∧ endsOrStartsWith [':', '[', '#'] rest = true := by
  unfold identifierShorthand
  split
  · rename_i cs
    simp only [Option.ite_none_right_eq_some, Option.some.injEq, Prod.mk.injEq,
      Bool.and_eq_true, List.cons.injEq, true_and]
    constructor
    · rintro ⟨⟨⟨hbefore, hhead⟩, hends⟩, rfl, rfl⟩
      exact ⟨cs, rfl, rfl, hbefore, hhead, hends⟩
    · rintro ⟨cs, rfl, hspan, hbefore, hhead, hends⟩
      rw [hspan]
      exact ⟨⟨⟨hbefore, hhead⟩, hends⟩, rfl, rfl⟩
  · rename_i hne
    constructor
    · intro h
      cases h
    · rintro ⟨cs, rfl, _⟩
      exact absurd rfl (hne cs)

theorem contextShorthand_eq_some_iff {before : Option Char} {s name rest : List Char} :
    contextShorthand before s = some (name, rest) ↔
      ∃ cs, s = '.' :: cs ∧ nameSpan cs = (name, rest) ∧ canPrecedeShorthand before = true ∧
        name ≠ [] ∧ endsOrStartsWith ['.', ':', '['] rest = true := by
  unfold contextShorthand
  split
  · rename_i cs
    simp only [Option.ite_none_right_eq_some, Option.some.injEq, Prod.mk.injEq,
      Bool.and_eq_true, List.cons.injEq, true_and, Bool.not_eq_true', List.isEmpty_eq_false_iff]
    constructor
    · rintro ⟨⟨⟨hbefore, hne⟩, hends⟩, rfl, rfl⟩
      exact ⟨cs, rfl, rfl, hbefore, hne, hends⟩
    · rintro ⟨cs, rfl, hspan, hbefore, hne, hends⟩
      rw [hspan]
      exact ⟨⟨⟨hbefore, hne⟩, hends⟩, rfl, rfl⟩
  · rename_i hne
    constructor
    · intro h
      cases h
    · rintro ⟨cs, rfl, _⟩
      exact absurd rfl (hne cs)

theorem knownContext_eq_some_iff {known : List String} {before : Option Char}
    {s name rest : List Char} :
    knownContext known before s = some (name, rest) ↔
      contextShorthand before s = some (name, rest) ∧
        known.contains (String.ofList name) = true := by
  rw [knownContext, Option.filter_eq_some_iff]

theorem abbreviates_identifier : Abbreviates '#' identifierShorthand identifierAttribute where
  mark_eq := .inl rfl
  attr_plain := forall_mem_of_all (fun _ => ne_of_isPlain) (by decide)
  shape := by
    intro before s name rest h
    obtain ⟨cs, rfl, hspan, _, hhead, _⟩ := identifierShorthand_eq_some_iff.1 h
    obtain ⟨words, hne, hwords, hname⟩ := exists_words_of_dottedSpan hhead
    have happend := dottedSpan_append cs
    rw [hspan] at happend hname
    simp only at happend hname
    rw [happend, hname]
    exact ⟨rfl, shorthandName_dotted hne hwords⟩
  start := by
    intro s
    rw [Option.eq_none_iff_forall_ne_some]
    rintro ⟨name, rest⟩ h
    obtain ⟨cs, _, _, hbefore, _⟩ := identifierShorthand_eq_some_iff.1 h
    cases hbefore

theorem abbreviates_knownContext (known : List String) :
    Abbreviates '.' (knownContext known) contextAttribute where
  mark_eq := .inr rfl
  attr_plain := forall_mem_of_all (fun _ => ne_of_isPlain) (by decide)
  shape := by
    intro before s name rest h
    obtain ⟨cs, rfl, hspan, _, hne, _⟩ :=
      contextShorthand_eq_some_iff.1 (knownContext_eq_some_iff.1 h).1
    obtain ⟨rfl, hname⟩ := eq_append_of_nameSpan hspan
    exact ⟨rfl, shorthandName_of_nameWord ⟨hne, hname⟩⟩
  start := by
    intro s
    rw [Option.eq_none_iff_forall_ne_some]
    rintro ⟨name, rest⟩ h
    obtain ⟨cs, _, _, hbefore, _⟩ :=
      contextShorthand_eq_some_iff.1 (knownContext_eq_some_iff.1 h).1
    cases hbefore

theorem Abbreviates.eq_none_of_ne {mark : Char} {shorthand : Recognizer (List Char)}
    {attr : String} (h : Abbreviates mark shorthand attr) {before : Option Char} {c : Char}
    {cs : List Char} (hc : c ≠ mark) : shorthand before (c :: cs) = none := by
  rw [Option.eq_none_iff_forall_ne_some]
  rintro ⟨name, rest⟩ hsome
  exact hc (List.cons.inj (h.shape hsome).1).1

theorem Abbreviates.mark_ne {mark : Char} {shorthand : Recognizer (List Char)}
    {attr : String} (h : Abbreviates mark shorthand attr) :
    mark ≠ '[' ∧ mark ≠ ']' ∧ mark ≠ '"' ∧ isName mark = false := by
  rcases h.mark_eq with rfl | rfl
  · decide
  · decide

/-! ## Expansions by rules -/

/-- **A text and its expansion.**  At the head of a text that stands behind the character
`before` there is a clause, which stays, or a shorthand, which becomes the clause of its name,
or any other character, which stays. -/
inductive Expands (shorthand : Recognizer (List Char)) (attr : String) :
    (before : Option Char) → (s out : List Char) → Prop where
  | nil {before : Option Char} : Expands shorthand attr before [] []
  | clause {before : Option Char} {piece rest out : List Char} (hpiece : IsClause piece)
      (hrest : Expands shorthand attr (some ']') rest out) :
      Expands shorthand attr before (piece ++ rest) (piece ++ out)
  | shorthand {before : Option Char} {mark : Char} {name rest out : List Char}
      (hshort : shorthand before (mark :: (name ++ rest)) = some (name, rest))
      (hrest : Expands shorthand attr name.getLast? rest out) :
      Expands shorthand attr before (mark :: (name ++ rest))
        (equalsClause attr name ++ out)
  | char {before : Option Char} {c : Char} {rest out : List Char}
      (hclause : clause none (c :: rest) = none) (hshort : shorthand before (c :: rest) = none)
      (hrest : Expands shorthand attr (some c) rest out) :
      Expands shorthand attr before (c :: rest) (c :: out)

section
variable {mark : Char} {shorthand : Recognizer (List Char)} {attr : String}

/-- Every text has an expansion. -/
theorem exists_expands (h : Abbreviates mark shorthand attr) (before : Option Char)
    (s : List Char) : ∃ out, Expands shorthand attr before s out := by
  induction hlen : s.length using Nat.strongRecOn generalizing before s with
  | ind n ih =>
    cases s with
    | nil => exact ⟨[], .nil⟩
    | cons c cs =>
      cases hclause : clause none (c :: cs) with
      | some p =>
        obtain ⟨piece, rest⟩ := p
        obtain ⟨hpiece, heq⟩ := clause_eq_some_iff.1 hclause
        have hlt : rest.length < n := by
          rw [← hlen, heq, List.length_append]
          have := List.length_pos_iff.2 hpiece.ne_nil
          omega
        obtain ⟨out, hout⟩ := ih rest.length hlt (some ']') rest rfl
        exact ⟨piece ++ out, heq ▸ .clause hpiece hout⟩
      | none =>
        cases hshort : shorthand before (c :: cs) with
        | some p =>
          obtain ⟨name, rest⟩ := p
          obtain ⟨heq, _⟩ := h.shape hshort
          have hlt : rest.length < n := by
            rw [← hlen, heq, List.length_cons, List.length_append]
            omega
          obtain ⟨out, hout⟩ := ih rest.length hlt name.getLast? rest rfl
          refine ⟨equalsClause attr name ++ out, ?_⟩
          rw [heq] at hshort ⊢
          exact .shorthand hshort hout
        | none =>
          have hlt : cs.length < n := by
            rw [← hlen, List.length_cons]
            omega
          obtain ⟨out, hout⟩ := ih cs.length hlt (some c) cs rfl
          exact ⟨c :: out, .char hclause hshort hout⟩

/-- A run of characters that are neither brackets nor marks stays as it is. -/
theorem Expands.of_run (h : Abbreviates mark shorthand attr) {u : List Char}
    (hbracket : '[' ∉ u) (hmark : mark ∉ u) {before : Option Char} {s out : List Char}
    (hs : Expands shorthand attr (u.getLast?.or before) s out) :
    Expands shorthand attr before (u ++ s) (u ++ out) := by
  induction u generalizing before with
  | nil => exact hs
  | cons c cs ih =>
    rw [List.mem_cons, not_or] at hbracket hmark
    rw [getLast?_cons_or] at hs
    exact .char (clause_of_ne (Ne.symm hbracket.1)) (h.eq_none_of_ne (Ne.symm hmark.1))
      (ih hbracket.2 hmark.2 hs)

/-- A name behind a mark that is not the one of the pass, or is refused, stays as it is. -/
theorem Expands.of_marked (h : Abbreviates mark shorthand attr) {before : Option Char} {c : Char}
    {name rest out : List Char} (hname : ShorthandName name) (hc : c ≠ '[') (hmark : mark ∉ name)
    (hnone : shorthand before (c :: (name ++ rest)) = none)
    (hrest : Expands shorthand attr name.getLast? rest out) :
    Expands shorthand attr before (c :: (name ++ rest)) (c :: (name ++ out)) := by
  refine .char (clause_of_ne hc) hnone (.of_run h (hname.not_mem (by decide) (by decide)) hmark ?_)
  rw [hname.getLast?_or]
  exact hrest

/-! ## Rules read backwards -/

theorem Expands.cases_text {before : Option Char} {s out : List Char}
    (hs : Expands shorthand attr before s out) :
    (s = [] ∧ out = []) ∨
    (∃ piece rest out', IsClause piece ∧ s = piece ++ rest ∧ out = piece ++ out' ∧
      Expands shorthand attr (some ']') rest out') ∨
    (∃ mark name rest out', shorthand before s = some (name, rest) ∧
      s = mark :: (name ++ rest) ∧ out = equalsClause attr name ++ out' ∧
      Expands shorthand attr name.getLast? rest out') ∨
    ∃ c rest out', s = c :: rest ∧ out = c :: out' ∧ Selector.clause none s = none ∧
      shorthand before s = none ∧ Expands shorthand attr (some c) rest out' := by
  cases hs with
  | nil => exact .inl ⟨rfl, rfl⟩
  | @clause _ piece rest out hpiece hrest =>
    exact .inr (.inl ⟨piece, rest, out, hpiece, rfl, rfl, hrest⟩)
  | @shorthand _ mark name rest out hshort hrest =>
    exact .inr (.inr (.inl ⟨mark, name, rest, out, hshort, rfl, rfl, hrest⟩))
  | @char _ c rest out hclause hshort hrest =>
    exact .inr (.inr (.inr ⟨c, rest, out, rfl, rfl, hclause, hshort, hrest⟩))

theorem equalsClause_eq (attr : String) (name : List Char) :
    equalsClause attr name = '[' :: ((attr.toList ++ ['=']) ++ '"' :: (name ++ ['"', ']'])) := by
  simp [equalsClause]

theorem isClause_equalsClause (h : Abbreviates mark shorthand attr) {name : List Char}
    (hname : '"' ∉ name) : IsClause (equalsClause attr name) := by
  rw [equalsClause_eq]
  refine isClause_value ?_ hname
  intro c hc
  rcases List.mem_append.1 hc with hc | hc
  · exact h.attr_plain c hc
  · rw [List.mem_singleton.1 hc]
    decide

/-- A character of an expansion that starts no clause is one of the text. -/
theorem Expands.of_cons (h : Abbreviates mark shorthand attr) {before : Option Char}
    {s : List Char} {c : Char} {out : List Char}
    (hs : Expands shorthand attr before s (c :: out))
    (hclause : Selector.clause none (c :: out) = none) :
    ∃ rest, s = c :: rest ∧ Selector.clause none s = none ∧ shorthand before s = none ∧
      Expands shorthand attr (some c) rest out := by
  rcases hs.cases_text with ⟨_, hnil⟩ | ⟨piece, rest, out', hpiece, _, heq, _⟩ |
    ⟨mark', name, rest, out', hshort, _, heq, _⟩ | ⟨c', rest, out', rfl, heq, hnone, hshort, hrest⟩
  · cases hnil
  · rw [heq, hpiece.clause_append] at hclause
    cases hclause
  · have hpiece := isClause_equalsClause h (h.shape hshort).2.quote_not_mem
    rw [heq, hpiece.clause_append] at hclause
    cases hclause
  · obtain ⟨rfl, rfl⟩ := List.cons.inj heq
    exact ⟨rest, rfl, hnone, hshort, hrest⟩

theorem IsClause.append_inj {piece piece' rest rest' : List Char} (h : IsClause piece)
    (h' : IsClause piece') (heq : piece ++ rest = piece' ++ rest') :
    piece = piece' ∧ rest = rest' := by
  have hclause := h.clause_append none rest
  rw [heq, h'.clause_append] at hclause
  obtain ⟨rfl, rfl⟩ := Prod.mk.inj (Option.some.inj hclause)
  exact ⟨rfl, rfl⟩

/-- A clause of an expansion is one of the text, or stands for a shorthand, or begins with a
bracket that nothing closes in the text. -/
theorem Expands.of_isClause (h : Abbreviates mark shorthand attr) {before : Option Char}
    {s piece out : List Char} (hpiece : IsClause piece)
    (hs : Expands shorthand attr before s (piece ++ out)) :
    (∃ rest, s = piece ++ rest ∧ Expands shorthand attr (some ']') rest out) ∨
    (∃ name rest, shorthand before s = some (name, rest) ∧ piece = equalsClause attr name ∧
      Expands shorthand attr name.getLast? rest out) ∨
    ∃ rest tail, s = '[' :: rest ∧ piece = '[' :: tail ∧ Selector.clause none s = none ∧
      Expands shorthand attr (some '[') rest (tail ++ out) := by
  rcases hs.cases_text with ⟨_, hnil⟩ | ⟨piece', rest, out', hpiece', rfl, heq, hrest⟩ |
    ⟨mark', name, rest, out', hshort, _, heq, hrest⟩ | ⟨c, rest, out', rfl, heq, hnone, _, hrest⟩
  · exact absurd (List.append_eq_nil_iff.1 hnil).1 hpiece.ne_nil
  · obtain ⟨rfl, rfl⟩ := hpiece.append_inj hpiece' heq
    exact .inl ⟨rest, rfl, hrest⟩
  · have hname := isClause_equalsClause h (h.shape hshort).2.quote_not_mem
    obtain ⟨rfl, rfl⟩ := hpiece.append_inj hname heq
    exact .inr (.inl ⟨name, rest, hshort, rfl, hrest⟩)
  · obtain ⟨tail, rfl⟩ := hpiece.exists_cons
    obtain ⟨rfl, rfl⟩ := List.cons.inj heq
    exact .inr (.inr ⟨rest, tail, rfl, rfl, hnone, hrest⟩)

/-! ## Lengths and ends -/

/-- An expansion is the text itself or a longer one. -/
theorem Expands.eq_or_length_lt {before : Option Char} {s out : List Char}
    (hs : Expands shorthand attr before s out) :
    out = s ∨ s.length < out.length := by
  induction hs with
  | nil => exact .inl rfl
  | clause _ _ ih =>
    rcases ih with rfl | hlt
    · exact .inl rfl
    · right
      rw [List.length_append, List.length_append]
      omega
  | @shorthand before mark' name rest out hshort _ ih =>
    right
    have hle : rest.length ≤ out.length := by
      rcases ih with rfl | hlt
      · exact Nat.le_refl _
      · exact Nat.le_of_lt hlt
    simp only [equalsClause, List.length_append, List.length_cons, List.length_nil]
    omega
  | char _ _ _ ih =>
    rcases ih with rfl | hlt
    · exact .inl rfl
    · right
      rw [List.length_cons, List.length_cons]
      omega

theorem Expands.length_le {before : Option Char} {s out : List Char}
    (hs : Expands shorthand attr before s out) : s.length ≤ out.length := by
  rcases hs.eq_or_length_lt with rfl | hlt
  · exact Nat.le_refl _
  · exact Nat.le_of_lt hlt

/-- An expansion starts as its text does. -/
theorem Expands.head?_eq (h : Abbreviates mark shorthand attr) {s out : List Char}
    (hs : Expands shorthand attr none s out) : out.head? = s.head? := by
  cases hs with
  | nil => rfl
  | clause hpiece _ =>
    obtain ⟨tail, rfl⟩ := hpiece.exists_cons
    rfl
  | shorthand hshort _ =>
    rw [h.start] at hshort
    cases hshort
  | char _ _ _ => rfl

/-- An expansion ends as its text does, or with a bracket. -/
theorem Expands.getLast?_eq (h : Abbreviates mark shorthand attr) {before : Option Char}
    {s out : List Char} (hs : Expands shorthand attr before s out) :
    out.getLast? = s.getLast? ∨ out.getLast? = some ']' := by
  induction hs with
  | nil => exact .inl rfl
  | clause _ _ ih =>
    rw [List.getLast?_append, List.getLast?_append]
    rcases ih with heq | heq
    · exact .inl (by rw [heq])
    · exact .inr (by rw [heq]; rfl)
  | @shorthand before mark' name rest out hshort _ ih =>
    have hname : (mark' :: (name ++ rest)).getLast? = rest.getLast?.or name.getLast? := by
      rw [← List.cons_append, List.getLast?_append, (h.shape hshort).2.getLast?_cons]
    have hclause : (equalsClause attr name).getLast? = some ']' := by
      rw [equalsClause, List.getLast?_append]
      rfl
    rw [hname, List.getLast?_append, hclause]
    rcases ih with heq | heq
    · rw [heq]
      cases rest.getLast? with
      | none => exact .inr rfl
      | some c => exact .inl rfl
    · exact .inr (by rw [heq]; rfl)
  | @char before c rest out _ _ _ ih =>
    rw [List.getLast?_cons, List.getLast?_cons]
    rcases ih with heq | heq
    · exact .inl (by rw [heq])
    · exact .inr (by rw [heq]; rfl)

/-- The scan that replaces by a recognizer follows the rules, where the recognizer takes clauses
and shorthands as the rules do and passes everything else. -/
theorem Expands.replaceFrom_eq {recognize : Recognizer (List Char)}
    (h : Abbreviates mark shorthand attr)
    (hclause : ∀ before piece rest, IsClause piece →
      recognize before (piece ++ rest) = some (piece, rest))
    (hshort : ∀ before s name rest, shorthand before s = some (name, rest) →
      recognize before s = some (equalsClause attr name, rest))
    (hchar : ∀ before c cs, Selector.clause none (c :: cs) = none →
      shorthand before (c :: cs) = none →
      replaceFrom recognize id before (c :: cs) = c :: replaceFrom recognize id (some c) cs)
    {before : Option Char} {s out : List Char} (hs : Expands shorthand attr before s out) :
    replaceFrom recognize id before s = out := by
  induction hs with
  | nil => simp
  | clause hpiece _ ih =>
    rw [replaceFrom_found hpiece.ne_nil (hclause _ _ _ hpiece), hpiece.getLast?, ih]
    rfl
  | @shorthand before mark' name rest out hs _ ih =>
    have hfound :
        recognize before ((mark' :: name) ++ rest) = some (equalsClause attr name, rest) :=
      hshort _ _ _ _ hs
    rw [← List.cons_append, replaceFrom_found (List.cons_ne_nil _ _) hfound,
      (h.shape hs).2.getLast?_cons, ih]
    rfl
  | char hc hs _ ih => rw [hchar _ _ _ hc hs, ih]

end

/-! ## The two passes -/

theorem clauseOr_of_isClause {shorthand : Recognizer (List Char)}
    {expansion : List Char → List Char} {before : Option Char} {piece : List Char}
    (h : IsClause piece) (rest : List Char) :
    clauseOr shorthand expansion before (piece ++ rest) = some (piece, rest) := by
  rw [clauseOr, Recognizer.orElse, h.clause_append]
  rfl

theorem clauseOr_of_none {shorthand : Recognizer (List Char)}
    {expansion : List Char → List Char} {before : Option Char} {s : List Char}
    (h : clause none s = none) :
    clauseOr shorthand expansion before s =
      (shorthand before s).map fun p => (expansion p.1, p.2) := by
  rw [clauseOr, Recognizer.orElse, clause_before before none, h]
  rfl

theorem Abbreviates.clause_eq_none {mark : Char} {shorthand : Recognizer (List Char)}
    {attr : String} (h : Abbreviates mark shorthand attr) {before : Option Char}
    {s name rest : List Char} (hs : shorthand before s = some (name, rest)) :
    clause none s = none := by
  rw [(h.shape hs).1]
  exact clause_of_ne h.mark_ne.1

theorem expandIdentifiers_eq {s out : List Char}
    (h : Expands identifierShorthand identifierAttribute none s out) :
    expandIdentifiers s = out := by
  refine Expands.replaceFrom_eq abbreviates_identifier ?_ ?_ ?_ h
  · intro before piece rest hpiece
    exact clauseOr_of_isClause hpiece rest
  · intro before s name rest hs
    rw [clauseOr_of_none (abbreviates_identifier.clause_eq_none hs), hs]
    rfl
  · intro before c cs hclause hs
    have hnone : clauseOr identifierShorthand identifierClause before (c :: cs) = none := by
      rw [clauseOr_of_none hclause, hs]
      rfl
    exact replaceFrom_of_none hnone

/-- The second pass expands the shorthands of known contexts; an unknown one, which it takes as
a whole and leaves as it is, it might as well pass character by character. -/
theorem expandContexts_eq {known : List String} {s out : List Char}
    (h : Expands (knownContext known) contextAttribute none s out) :
    expandContexts known s = out := by
  refine Expands.replaceFrom_eq (abbreviates_knownContext known) ?_ ?_ ?_ h
  · intro before piece rest hpiece
    exact clauseOr_of_isClause hpiece rest
  · intro before s name rest hs
    obtain ⟨hshort, hknown⟩ := knownContext_eq_some_iff.1 hs
    rw [clauseOr_of_none ((abbreviates_knownContext known).clause_eq_none hs), hshort,
      Option.map_some, contextClause, if_pos hknown]
  · intro before c cs hclause hs
    cases hshort : contextShorthand before (c :: cs) with
    | none =>
      have hnone : clauseOr contextShorthand (contextClause known) before (c :: cs) = none := by
        rw [clauseOr_of_none hclause, hshort]
        rfl
      exact replaceFrom_of_none hnone
    | some p =>
      obtain ⟨name, rest⟩ := p
      obtain ⟨cs', heq, hspan, -, hne, -⟩ := contextShorthand_eq_some_iff.1 hshort
      obtain ⟨rfl, rfl⟩ := List.cons.inj heq
      obtain ⟨rfl, hname⟩ := eq_append_of_nameSpan hspan
      have hknown : known.contains (String.ofList name) = false := by
        refine Bool.eq_false_iff.2 fun hknown => ?_
        rw [knownContext_eq_some_iff.2 ⟨hshort, hknown⟩] at hs
        cases hs
      have hfound : clauseOr contextShorthand (contextClause known) before
          (('.' :: name) ++ rest) = some ('.' :: name, rest) := by
        rw [List.cons_append, clauseOr_of_none hclause, hshort, Option.map_some, contextClause,
          if_neg (by rw [hknown]; exact Bool.false_ne_true)]
      have hrun : ∀ before, ∀ d ∈ name, ∀ ds,
          clauseOr contextShorthand (contextClause known) before (d :: ds) = none := by
        intro before d hd ds
        have hdot : d ≠ '.' := by
          rintro rfl
          exact absurd (hname '.' hd) (by decide)
        rw [clauseOr_of_none (clause_of_ne (ne_of_isName (hname d hd) (by decide)))]
        cases hds : contextShorthand before (d :: ds) with
        | none => rfl
        | some q =>
          obtain ⟨_, heq, _⟩ := contextShorthand_eq_some_iff.1 hds
          exact absurd (List.cons.inj heq).1 hdot
      have hname' := shorthandName_of_nameWord ⟨hne, hname⟩
      rw [← List.cons_append, replaceFrom_found (List.cons_ne_nil _ _) hfound,
        replaceFrom_append_of_none hrun, hname'.getLast?_cons, hname'.getLast?_or]
      rfl

theorem expands_expandIdentifiers (s : List Char) :
    Expands identifierShorthand identifierAttribute none s (expandIdentifiers s) := by
  obtain ⟨out, hout⟩ := exists_expands abbreviates_identifier none s
  rw [expandIdentifiers_eq hout]
  exact hout

theorem expands_expandContexts (known : List String) (s : List Char) :
    Expands (knownContext known) contextAttribute none s (expandContexts known s) := by
  obtain ⟨out, hout⟩ := exists_expands (abbreviates_knownContext known) none s
  rw [expandContexts_eq hout]
  exact hout

/-! ## Blanks at the ends -/

theorem trim_eq_self {s : List Char} (hhead : StopsAt isBlank s)
    (hlast : StopsAt isBlank s.reverse) : trim s = s := by
  rw [trim, trimStart, dropWhile_of_stopsAt hhead, trimEnd, dropWhile_of_stopsAt hlast,
    List.reverse_reverse]

theorem stopsAt_trim_reverse (s : List Char) : StopsAt isBlank (trim s).reverse := by
  rw [trim, trimEnd, List.reverse_reverse]
  exact stopsAt_dropWhile isBlank _

theorem stopsAt_trim (s : List Char) : StopsAt isBlank (trim s) := by
  have hhead : StopsAt isBlank (trimStart s) := stopsAt_dropWhile isBlank s
  have hpre : trim s <+: trimStart s := by
    have hsuffix := List.dropWhile_suffix (l := (trimStart s).reverse) isBlank
    have := List.reverse_prefix.2 hsuffix
    rwa [List.reverse_reverse] at this
  obtain ⟨behind, heq⟩ := hpre
  intro c hc
  refine hhead c ?_
  rw [← heq, List.head?_append, Option.mem_def.1 hc]
  rfl

/-- An expanded selector has no blanks at its ends. -/
theorem trim_normalizeChars (known : List String) (s : List Char) :
    trim (normalizeChars known s) = normalizeChars known s := by
  have hids := expands_expandIdentifiers (trim s)
  have hctx := expands_expandContexts known (expandIdentifiers (trim s))
  have hbracket : isBlank ']' = false := by decide
  have hlast : ∀ {mark shorthand attr before} {u out : List Char}, Abbreviates mark shorthand attr →
      Expands shorthand attr before u out → StopsAt isBlank u.reverse →
        StopsAt isBlank out.reverse := by
    intro mark shorthand attr before u out habbr hout hu c hc
    rw [List.head?_reverse] at hc
    rcases hout.getLast?_eq habbr with heq | heq
    · exact hu c (by rw [List.head?_reverse, ← heq]; exact hc)
    · rw [heq] at hc
      cases hc
      exact hbracket
  refine trim_eq_self ?_ ?_
  · intro c hc
    rw [normalizeChars, hctx.head?_eq (abbreviates_knownContext known),
      hids.head?_eq abbreviates_identifier] at hc
    exact stopsAt_trim s c hc
  · exact hlast (abbreviates_knownContext known) hctx
      (hlast abbreviates_identifier hids (stopsAt_trim_reverse s))

end StyleCascade.Selector

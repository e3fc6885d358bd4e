import Mathlib.Data.List.Forall2
import StyleCascade.Proofs.LenientReading

/-!
# What bracketed clauses hold

Expansion passes over bracketed clauses: it leaves what they hold as it is, and what they hold
makes no difference to what becomes of the rest.  A shorthand reaches up to the next clause at
most, so the gaps between the clauses are expanded one by one.

* `interleave` — gaps with a clause between each two of them.
* `StopsAtBracket` — shorthands that a bracket behind them ends, as the end of the text does.
* `IsClosed` — the texts in which every opening bracket belongs to a clause; what expansion makes
  of a gap is one of them.
* `Expands.append` — a gap is expanded on its own.
* `exists_expand_interleave`, `normalize_interleave` — a selector is normalized gap by
  gap, whatever its clauses hold.
-/

namespace StyleCascade.Selector

open StyleCascade.Text

/-! ## Gaps and clauses -/

/-- A first gap, and further gaps with a clause in front of each. -/
def interleave : (first : List Char) → (gaps clauses : List (List Char)) → List Char
  | first, gap :: gaps, piece :: clauses => first ++ (piece ++ interleave gap gaps clauses)
  | first, _, _ => first

/-- A text that is empty or starts with an opening bracket. -/
def StartsAtBracket (t : List Char) : Prop := ∀ c ∈ t.head?, c = '['

theorem IsClause.startsAtBracket {piece : List Char} (h : IsClause piece) (rest : List Char) :
    StartsAtBracket (piece ++ rest) := by
  obtain ⟨tail, rfl⟩ := h.exists_cons
  rintro _ ⟨⟩
  rfl

/-! ## Shorthands in front of a clause -/

section
variable {t : List Char}

theorem StartsAtBracket.stopsAt (h : StartsAtBracket t) : StopsAt isName t := by
  intro c hc
  rw [h c hc]
  decide

/-- In front of a bracket a text starts with a name character if it does so at the end. -/
theorem StartsAtBracket.head?_any_isName (h : StartsAtBracket t) (s : List Char) :
    (s ++ t).head?.any isName = s.head?.any isName := by
  cases s with
  | nil => exact stopsAt_iff.1 h.stopsAt
  | cons c cs => rfl

theorem StartsAtBracket.dottedSpan_append (h : StartsAtBracket t) (s : List Char) :
    dottedSpan (s ++ t) = ((dottedSpan s).1, (dottedSpan s).2 ++ t) := by
  induction s with
  | nil =>
    cases t with
    | nil => rfl
    | cons c cs =>
      rw [h c rfl]
      exact endsDotted_of_ne (by decide) (by decide) cs
  | cons c cs ih =>
    rw [List.cons_append, dottedSpan, dottedSpan, h.head?_any_isName]
    split
    · rw [ih]
    · rfl

theorem StartsAtBracket.endsOrStartsWith_append (h : StartsAtBracket t) {marks : List Char}
    (hmarks : '[' ∈ marks) (s : List Char) :
    endsOrStartsWith marks (s ++ t) = endsOrStartsWith marks s := by
  cases s with
  | nil =>
    cases t with
    | nil => rfl
    | cons c cs =>
      rw [h c rfl]
      exact List.contains_iff_mem.2 hmarks
  | cons c cs => rfl

end

/-- The shorthands of one kind end in front of a bracket as they do at the end of a text. -/
def StopsAtBracket (shorthand : Recognizer (List Char)) : Prop :=
  ∀ before s t, StartsAtBracket t →
    shorthand before (s ++ t) = (shorthand before s).map fun p => (p.1, p.2 ++ t)

theorem Abbreviates.of_startsAtBracket {mark : Char} {shorthand : Recognizer (List Char)}
    {attr : String} (h : Abbreviates mark shorthand attr) (before : Option Char) {t : List Char}
    (ht : StartsAtBracket t) : shorthand before t = none := by
  rw [Option.eq_none_iff_forall_ne_some]
  rintro ⟨name, rest⟩ hsome
  obtain ⟨rfl, _⟩ := h.shape hsome
  exact h.mark_ne.1 (ht mark rfl)

theorem stopsAtBracket_identifierShorthand : StopsAtBracket identifierShorthand := by
  intro before s t ht
  cases s with
  | nil =>
    rw [List.nil_append, abbreviates_identifier.of_startsAtBracket before ht]
    rfl
  | cons c cs =>
    by_cases hc : c = '#'
    · subst hc
      have hends := ht.endsOrStartsWith_append (show '[' ∈ [':', '[', '#'] by decide)
      simp only [List.cons_append, identifierShorthand, ht.dottedSpan_append, ht.head?_any_isName,
        hends]
      split <;> rfl
    · rw [List.cons_append, abbreviates_identifier.eq_none_of_ne hc,
        abbreviates_identifier.eq_none_of_ne hc]
      rfl

theorem stopsAtBracket_knownContext (known : List String) :
    StopsAtBracket (knownContext known) := by
  intro before s t ht
  cases s with
  | nil =>
    rw [List.nil_append, (abbreviates_knownContext known).of_startsAtBracket before ht]
    rfl
  | cons c cs =>
    by_cases hc : c = '.'
    · subst hc
      have hends := ht.endsOrStartsWith_append (show '[' ∈ ['.', ':', '['] by decide)
      simp only [List.cons_append, knownContext, contextShorthand, ht.stopsAt.nameSpan_append,
        hends]
      split
      · simp only [Option.filter_some]
        split <;> rfl
      · rfl
    · rw [List.cons_append, (abbreviates_knownContext known).eq_none_of_ne hc,
        (abbreviates_knownContext known).eq_none_of_ne hc]
      rfl

/-! ## Texts without stray brackets -/

/-- Every opening bracket of the text belongs to a clause: without its clauses it has none. -/
def IsClosed (s : List Char) : Prop := '[' ∉ replaceClauses [] s

theorem replaceClauses_eq (replacement : List Char) (before : Option Char) (s : List Char) :
    replaceFrom clause (fun _ => replacement) before s = replaceClauses replacement s := by
  rw [replaceClauses, replaceAll_eq_replaceFrom]
  exact replaceFrom_before clause_before _ before none s

theorem isClosed_clause_append_iff {piece : List Char} (h : IsClause piece) (rest : List Char) :
    IsClosed (piece ++ rest) ↔ IsClosed rest := by
  rw [IsClosed, ← replaceClauses_eq [] none, replaceFrom_found h.ne_nil (h.clause_append none rest),
    replaceClauses_eq, List.nil_append, IsClosed]

theorem isClosed_append_iff {u : List Char} (h : '[' ∉ u) (s : List Char) :
    IsClosed (u ++ s) ↔ IsClosed s := by
  rw [IsClosed, ← replaceClauses_eq [] none, replaceFrom_clause_append h, replaceClauses_eq,
    List.mem_append, or_iff_right h, IsClosed]

theorem isClosed_nil : IsClosed [] := by simp [IsClosed, replaceClauses, replaceAll, scan]

theorem isClosed_of_not_mem {s : List Char} (h : '[' ∉ s) : IsClosed s := by
  have hiff := isClosed_append_iff h []
  rw [List.append_nil] at hiff
  exact hiff.2 isClosed_nil

/-- A character of the text that starts no clause is no opening bracket. -/
theorem IsClosed.cons {c : Char} {s : List Char} (h : IsClosed (c :: s))
    (hnone : clause none (c :: s) = none) : c ≠ '[' ∧ IsClosed s := by
  rw [IsClosed, ← replaceClauses_eq [] none, replaceFrom_of_none hnone, replaceClauses_eq,
    List.mem_cons, not_or] at h
  exact ⟨Ne.symm h.1, h.2⟩

section
variable {mark : Char} {shorthand : Recognizer (List Char)} {attr : String}

theorem Abbreviates.isClosed_iff (h : Abbreviates mark shorthand attr) {before : Option Char}
    {s name rest : List Char} (hshort : shorthand before s = some (name, rest)) :
    IsClosed s ↔ IsClosed rest := by
  obtain ⟨rfl, hname⟩ := h.shape hshort
  have hbracket : '[' ∉ mark :: name := by
    rw [List.mem_cons, not_or]
    exact ⟨Ne.symm h.mark_ne.1, hname.not_mem (by decide) (by decide)⟩
  exact isClosed_append_iff hbracket rest

/-- Expansion leaves no stray brackets where there were none. -/
theorem Expands.isClosed (h : Abbreviates mark shorthand attr) {before : Option Char}
    {s out : List Char} (hs : Expands shorthand attr before s out) (hclosed : IsClosed s) :
    IsClosed out := by
  induction hs with
  | nil => exact hclosed
  | clause hpiece _ ih =>
    rw [isClosed_clause_append_iff hpiece] at hclosed ⊢
    exact ih hclosed
  | shorthand hshort _ ih =>
    have hpiece := isClause_equalsClause h (h.shape hshort).2.quote_not_mem
    rw [isClosed_clause_append_iff hpiece]
    exact ih ((h.isClosed_iff hshort).1 hclosed)
  | @char before c rest out hnone hshort _ ih =>
    obtain ⟨hc, hrest⟩ := hclosed.cons hnone
    have hbracket : '[' ∉ [c] := by simpa using Ne.symm hc
    exact (isClosed_append_iff hbracket out).2 (ih hrest)

/-- **A gap is expanded on its own.**  What expansion makes of a text in front of a clause does not
depend on the clause. -/
theorem Expands.append (h : Abbreviates mark shorthand attr) (hstops : StopsAtBracket shorthand)
    {before : Option Char} {s t out out' : List Char} (hclosed : IsClosed s)
    (ht : StartsAtBracket t) (hs : Expands shorthand attr before s out)
    (hrest : Expands shorthand attr (s.getLast?.or before) t out') :
    Expands shorthand attr before (s ++ t) (out ++ out') := by
  induction hs with
  | nil => exact hrest
  | @clause before piece rest out hpiece _ ih =>
    rw [List.getLast?_append, hpiece.getLast?, Option.or_assoc, Option.some_or] at hrest
    rw [List.append_assoc, List.append_assoc]
    exact .clause hpiece (ih ((isClosed_clause_append_iff hpiece rest).1 hclosed) hrest)
  | @shorthand before mark' name rest out hshort _ ih =>
    have hname := (h.shape hshort).2
    have hlast : (mark' :: (name ++ rest)).getLast?.or before = rest.getLast?.or name.getLast? := by
      rw [← List.cons_append, List.getLast?_append, Option.or_assoc, hname.getLast?_cons,
        hname.getLast?_or]
    have hshort' : shorthand before (mark' :: (name ++ (rest ++ t))) = some (name, rest ++ t) := by
      have happend := hstops before (mark' :: (name ++ rest)) t ht
      rw [hshort, List.cons_append, List.append_assoc] at happend
      exact happend
    rw [hlast] at hrest
    rw [List.cons_append, List.append_assoc, List.append_assoc]
    exact .shorthand hshort' (ih ((h.isClosed_iff hshort).1 hclosed) hrest)
  | @char before c rest out hnone hshort _ ih =>
    obtain ⟨hc, hclosed⟩ := hclosed.cons hnone
    have hshort' : shorthand before (c :: (rest ++ t)) = none := by
      rw [← List.cons_append, hstops before (c :: rest) t ht, hshort]
      rfl
    rw [getLast?_cons_or] at hrest
    exact .char (clause_of_ne hc) hshort' (ih hclosed hrest)

/-! ## Gap by gap -/

/-- Every gap has an expansion of its own. -/
theorem exists_expands_gaps (h : Abbreviates mark shorthand attr) (gaps : List (List Char)) :
    ∃ outs, List.Forall₂ (Expands shorthand attr (some ']')) gaps outs := by
  induction gaps with
  | nil => exact ⟨[], .nil⟩
  | cons gap rest ih =>
    obtain ⟨out, hout⟩ := exists_expands h (some ']') gap
    obtain ⟨outs, houts⟩ := ih
    exact ⟨out :: outs, .cons hout houts⟩

theorem Expands.isClosed_gaps (h : Abbreviates mark shorthand attr) {gaps outs : List (List Char)}
    (hgaps : List.Forall₂ (Expands shorthand attr (some ']')) gaps outs)
    (hclosed : ∀ gap ∈ gaps, IsClosed gap) : ∀ out ∈ outs, IsClosed out := by
  induction hgaps with
  | nil => exact hclosed
  | cons hgap _ ih =>
    rw [List.forall_mem_cons] at hclosed ⊢
    exact ⟨hgap.isClosed h hclosed.1, ih hclosed.2⟩

/-- A pass over gaps and clauses expands the gaps and leaves the clauses. -/
theorem Expands.interleave (h : Abbreviates mark shorthand attr) (hstops : StopsAtBracket shorthand)
    {before : Option Char} {first first' : List Char} {gaps gaps' clauses : List (List Char)}
    (hfirst : Expands shorthand attr before first first')
    (hgaps : List.Forall₂ (Expands shorthand attr (some ']')) gaps gaps')
    (hclosed : ∀ gap ∈ first :: gaps, IsClosed gap) (hclauses : ∀ piece ∈ clauses, IsClause piece) :
    Expands shorthand attr before (interleave first gaps clauses)
      (interleave first' gaps' clauses) := by
  induction hgaps generalizing before first first' clauses with
  | nil => exact hfirst
  | @cons gap gap' gaps gaps' hgap _ ih =>
    rw [List.forall_mem_cons] at hclosed
    cases clauses with
    | nil => exact hfirst
    | cons piece clauses =>
      rw [List.forall_mem_cons] at hclauses
      have hrest := ih hgap hclosed.2 hclauses.2
      exact hfirst.append h hstops hclosed.1 (hclauses.1.startsAtBracket _)
        (.clause hclauses.1 hrest)

end

/-! ## A whole selector -/

/-- **Expansion gap by gap.**  The two passes over gaps without brackets and any clauses between
them make texts of the gaps that the clauses have no part in, and leave the clauses. -/
theorem exists_expand_interleave (known : List String) {first : List Char}
    {gaps : List (List Char)} (hgaps : ∀ gap ∈ first :: gaps, '[' ∉ gap) :
    ∃ first' gaps', gaps'.length = gaps.length ∧ ∀ clauses, (∀ piece ∈ clauses, IsClause piece) →
      expandContexts known (expandIdentifiers (interleave first gaps clauses)) =
        interleave first' gaps' clauses := by
  have hid := abbreviates_identifier
  have hctx := abbreviates_knownContext known
  obtain ⟨first₁, hfirst₁⟩ := exists_expands hid none first
  obtain ⟨gaps₁, hgaps₁⟩ := exists_expands_gaps hid gaps
  obtain ⟨first₂, hfirst₂⟩ := exists_expands hctx none first₁
  obtain ⟨gaps₂, hgaps₂⟩ := exists_expands_gaps hctx gaps₁
  have hclosed : ∀ gap ∈ first :: gaps, IsClosed gap :=
    fun gap hgap => isClosed_of_not_mem (hgaps gap hgap)
  -- The second pass finds the clauses of the first one in its gaps, but no stray brackets.
  have hclosed₁ : ∀ gap ∈ first₁ :: gaps₁, IsClosed gap := by
    rw [List.forall_mem_cons] at hclosed ⊢
    exact ⟨hfirst₁.isClosed hid hclosed.1, Expands.isClosed_gaps hid hgaps₁ hclosed.2⟩
  refine ⟨first₂, gaps₂, ?_, fun clauses hclauses => ?_⟩
  · rw [← hgaps₂.length_eq, ← hgaps₁.length_eq]
  · rw [expandIdentifiers_eq
      (hfirst₁.interleave hid stopsAtBracket_identifierShorthand hgaps₁ hclosed hclauses)]
    exact expandContexts_eq
      (hfirst₂.interleave hctx (stopsAtBracket_knownContext known) hgaps₂ hclosed₁ hclauses)

/-! ## Blanks at the ends -/

section
variable {first : List Char} {gaps clauses others : List (List Char)}

theorem head?_interleave (hlength : clauses.length = gaps.length)
    (hclauses : ∀ piece ∈ clauses, IsClause piece) :
    (interleave first gaps clauses).head? = first.head?.or (gaps.head?.map fun _ => '[') := by
  cases gaps with
  | nil => simp [interleave]
  | cons gap gaps =>
    cases clauses with
    | nil => cases hlength
    | cons piece clauses =>
      obtain ⟨tail, rfl⟩ := (hclauses piece List.mem_cons_self).exists_cons
      rw [interleave, List.head?_append]
      rfl

theorem getLast?_interleave_congr (hlength : clauses.length = gaps.length)
    (hlength' : others.length = gaps.length) (hclauses : ∀ piece ∈ clauses, IsClause piece)
    (hothers : ∀ piece ∈ others, IsClause piece) :
    (interleave first gaps clauses).getLast? = (interleave first gaps others).getLast? := by
  induction gaps generalizing first clauses others with
  | nil => simp [interleave]
  | cons gap gaps ih =>
    cases clauses with
    | nil => cases hlength
    | cons piece clauses =>
      cases others with
      | nil => cases hlength'
      | cons other others =>
        rw [List.forall_mem_cons] at hclauses hothers
        have hrest :
            (interleave gap gaps clauses).getLast? = (interleave gap gaps others).getLast? :=
          ih (Nat.succ.inj hlength) (Nat.succ.inj hlength') hclauses.2 hothers.2
        simp only [interleave, List.getLast?_append, hclauses.1.getLast?, hothers.1.getLast?, hrest]

/-- Whether a selector has blanks at its ends does not depend on its clauses. -/
theorem trim_interleave (hlength : clauses.length = gaps.length)
    (hlength' : others.length = gaps.length) (hclauses : ∀ piece ∈ clauses, IsClause piece)
    (hothers : ∀ piece ∈ others, IsClause piece)
    (h : trim (interleave first gaps clauses) = interleave first gaps clauses) :
    trim (interleave first gaps others) = interleave first gaps others := by
  refine trim_eq_self ?_ ?_
  · intro c hc
    rw [head?_interleave hlength' hothers, ← head?_interleave hlength hclauses, ← h] at hc
    exact stopsAt_trim _ c hc
  · intro c hc
    rw [List.head?_reverse, getLast?_interleave_congr hlength' hlength hothers hclauses, ← h,
      ← List.head?_reverse] at hc
    exact stopsAt_trim_reverse _ c hc

end

theorem isClause_of_mem_clauses {s piece : List Char} (h : piece ∈ clauses s) : IsClause piece := by
  rw [clauses, findAll_eq_findAllFrom] at h
  obtain ⟨_, _, _, hfound⟩ := exists_of_mem_findAllFrom h
  exact (clause_eq_some_iff.1 hfound).1

/-- **Clauses are neither rewritten nor read.**  Normalizing a trimmed selector that has no brackets
between its clauses leaves the clauses as they are, and makes the same texts of the gaps whatever
clauses stand between them. -/
theorem normalize_interleave (known : List String) {selector : String} {first : List Char}
    {gaps : List (List Char)} (htrimmed : trim selector.toList = selector.toList)
    (htext : selector.toList = interleave first gaps (clauses selector.toList))
    (hlength : (clauses selector.toList).length = gaps.length)
    (hgaps : ∀ gap ∈ first :: gaps, '[' ∉ gap) :
    ∃ first' gaps', gaps'.length = gaps.length ∧
      (normalize known selector).toList = interleave first' gaps' (clauses selector.toList) ∧
      ∀ others : List (List Char), others.length = gaps.length →
        (∀ piece ∈ others, IsClause piece) →
        (normalize known (String.ofList (interleave first gaps others))).toList =
          interleave first' gaps' others := by
  obtain ⟨first', gaps', hlength', hexpand⟩ := exists_expand_interleave known hgaps
  have hclauses : ∀ piece ∈ clauses selector.toList, IsClause piece :=
    fun _ => isClause_of_mem_clauses
  refine ⟨first', gaps', hlength', ?_, ?_⟩
  · rw [toList_normalize, normalizeChars, htrimmed, ← hexpand _ hclauses, ← htext]
  · intro others hothers hpieces
    rw [htext] at htrimmed
    have htrim := trim_interleave hlength hothers hclauses hpieces htrimmed
    rw [toList_normalize, normalizeChars, String.toList_ofList, htrim, hexpand others hpieces]

/-- The statement at a selector with stray quotes and brackets in its gaps, and with shorthands in
its clauses. -/
theorem normalize_interleave_stray :
    let selector := "a\"b.chat[c=\"]#d\"]#e[.chat]]:f"
    let pieces := ["[c=\"]#d\"]".toList, "[.chat]".toList]
    let gaps := ["#e".toList, "]:f".toList]
    trim selector.toList = selector.toList ∧ clauses selector.toList = pieces ∧
      selector.toList = interleave "a\"b.chat".toList gaps pieces ∧
      (∀ gap ∈ "a\"b.chat".toList :: gaps, '[' ∉ gap) ∧
      ∃ first' gaps', gaps'.length = 2 ∧
        (normalize standardContexts selector).toList = interleave first' gaps' pieces ∧
        ∀ others : List (List Char), others.length = 2 → (∀ piece ∈ others, IsClause piece) →
          (normalize standardContexts
              (String.ofList (interleave "a\"b.chat".toList gaps others))).toList =
            interleave first' gaps' others := by
  intro selector pieces gaps
  have htrimmed : trim selector.toList = selector.toList := by decide +kernel
  have hpieces : clauses selector.toList = pieces := by decide +kernel
  have htext : selector.toList = interleave "a\"b.chat".toList gaps pieces := by decide +kernel
  have hgaps : ∀ gap ∈ "a\"b.chat".toList :: gaps, '[' ∉ gap := by decide +kernel
  have hlength : (clauses selector.toList).length = gaps.length := by rw [hpieces]; rfl
  have hmain := normalize_interleave standardContexts htrimmed (by rw [hpieces]; exact htext)
    hlength hgaps
  rw [hpieces] at hmain
  exact ⟨htrimmed, hpieces, htext, hgaps, hmain⟩

end StyleCascade.Selector

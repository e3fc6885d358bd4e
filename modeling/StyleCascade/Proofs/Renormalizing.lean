import StyleCascade.Proofs.Agreement

/-!
# Normalizing twice

A normalized selector may hold shorthands that a second normalization expands: the clauses that
the passes write change what the other shorthands stand behind and in front of.  They do so at
two kinds of places, the seams.  A name that ends in a hyphen lets no shorthand follow it, but
the bracket of its clause does; and a word with a dot in front stops an identifier from being
one, but its clause does not.

* `expands_self_iff` — a pass leaves a text as it is where no shorthand stands outside clauses.
* `Expands.outside` — every place of an expansion outside its clauses is one of the text.
* `IsSeam` — the two kinds of places.
* `normalize_normalize_of_attached` — a selector of the grammar with attached shorthands is
  normalized once and for all.
* `normalize_normalize_eq_iff` — the second normalization changes nothing exactly where the
  first one left no seam.
-/

namespace StyleCascade.Selector

open StyleCascade.Text

section
variable {mark : Char} {shorthand : Recognizer (List Char)} {attr : String}

/-! ## Texts that a pass leaves as they are -/

/-- A shorthand is shorter than its clause, so a text that holds one is not its own expansion. -/
theorem Expands.eq_none_of_self (h : Abbreviates mark shorthand attr) {before : Option Char}
    {s : List Char} (hs : Expands shorthand attr before s s) : shorthand before s = none := by
  rcases hs.cases_text with ⟨rfl, _⟩ | ⟨piece, rest, _, hpiece, rfl, _⟩ |
    ⟨mark', name, rest, out, _, hs, heq, hrest⟩ | ⟨_, _, _, _, _, _, hshort, _⟩
  · rw [Option.eq_none_iff_forall_ne_some]
    rintro ⟨name, rest⟩ hsome
    cases (h.shape hsome).1
  · obtain ⟨tail, rfl⟩ := hpiece.exists_cons
    exact h.eq_none_of_ne (Ne.symm h.mark_ne.1)
  · exfalso
    have hle := hrest.length_le
    have hlen := congrArg List.length (hs.symm.trans heq)
    rw [equalsClause_eq] at hlen
    simp only [List.length_append, List.length_cons, List.length_nil] at hlen
    omega
  · exact hshort

/-- If a text is its own expansion, so is what stands behind any of its places. -/
theorem Expands.self_outside (h : Abbreviates mark shorthand attr) {s item rest : List Char}
    (hs : Expands shorthand attr none s s) (ho : Outside s item rest) :
    Expands shorthand attr item.getLast? rest rest := by
  induction ho with
  | start => exact hs
  | char _ hclause ih =>
    obtain ⟨rest', heq, _, _, hrest⟩ := ih.of_cons h hclause
    rw [(List.cons.inj heq).2] at hrest ⊢
    exact hrest
  | @clause item piece rest _ hpiece ih =>
    rw [hpiece.getLast?]
    rcases ih.of_isClause h hpiece with ⟨rest', heq, hrest⟩ | ⟨name, rest', hshort, _⟩ |
      ⟨_, _, heq, _, hnone, _⟩
    · rw [List.append_cancel_left heq] at hrest ⊢
      exact hrest
    · rw [ih.eq_none_of_self h] at hshort
      cases hshort
    · rw [hpiece.clause_append] at hnone
      cases hnone

/-- **A pass leaves a text as it is** where no shorthand stands outside its clauses. -/
theorem expands_self_iff (h : Abbreviates mark shorthand attr) (s : List Char) :
    Expands shorthand attr none s s ↔
      ∀ item rest, Outside s item rest → shorthand item.getLast? rest = none := by
  constructor
  · intro hs item rest ho
    exact (hs.self_outside h ho).eq_none_of_self h
  · intro hall
    have hrec : ∀ n item rest, rest.length ≤ n → Outside s item rest →
        Expands shorthand attr item.getLast? rest rest := by
      intro n
      induction n with
      | zero =>
        intro item rest hlen _
        rw [List.length_eq_zero_iff.1 (Nat.le_zero.1 hlen)]
        exact .nil
      | succ n ih =>
        intro item rest hlen ho
        cases rest with
        | nil => exact .nil
        | cons c cs =>
          cases hclause : clause none (c :: cs) with
          | none =>
            have hcs := ih [c] cs (Nat.le_of_succ_le_succ hlen) (ho.char hclause)
            exact .char hclause (hall _ _ ho) hcs
          | some p =>
            obtain ⟨piece, rest⟩ := p
            obtain ⟨hpiece, heq⟩ := clause_eq_some_iff.1 hclause
            rw [heq] at hlen ho ⊢
            have hlt : rest.length ≤ n := by
              have := List.length_pos_iff.2 hpiece.ne_nil
              rw [List.length_append] at hlen
              omega
            have hrest := ih piece rest hlt (ho.clause hpiece)
            rw [hpiece.getLast?] at hrest
            exact .clause hpiece hrest
    exact hrec s.length [] s (Nat.le_refl _) .start

/-! ## Places of an expansion -/

/-- Characters that are no brackets are passed one by one. -/
theorem Outside.run {s item u : List Char} {c : Char} {rest : List Char}
    (hu : '[' ∉ u ++ [c]) (ho : Outside s item (u ++ [c] ++ rest)) :
    Outside s [c] rest := by
  induction u generalizing item with
  | nil =>
    have hc : '[' ≠ c := by simpa using hu
    exact ho.char (clause_of_ne (Ne.symm hc))
  | cons d ds ih =>
    rw [List.cons_append, List.mem_cons, not_or] at hu
    have ho' : Outside s item (d :: (ds ++ [c] ++ rest)) := by simpa using ho
    exact ih hu.2 (ho'.char (clause_of_ne (Ne.symm hu.1)))

/-- Behind a shorthand stands the last character of its name. -/
theorem Abbreviates.outside (h : Abbreviates mark shorthand attr) {before : Option Char}
    {s item behind u : List Char} {c : Char} {rest : List Char}
    (hshort : shorthand before behind = some (u ++ [c], rest)) (ho : Outside s item behind) :
    Outside s [c] rest := by
  obtain ⟨rfl, hname⟩ := h.shape hshort
  have ho' : Outside s item ((mark :: u) ++ [c] ++ rest) := by simpa using ho
  refine ho'.run ?_
  rw [List.cons_append, List.mem_cons, not_or]
  exact ⟨Ne.symm h.mark_ne.1, hname.not_mem (by decide) (by decide)⟩

/-- The clause of a name ends in the last character of the name. -/
theorem equalsClause_concat (attr : String) (u : List Char) (c : Char) :
    equalsClause attr (u ++ [c]) =
      '[' :: ((attr.toList ++ ['=']) ++ '"' :: u) ++ [c, '"', ']'] := by
  rw [equalsClause_eq]
  simp

/-- The items passed in front of two places: the same ones, or a clause that ends in the name of
a shorthand and the last character of the name. -/
def SameItem (item item' : List Char) : Prop :=
  item = item' ∨ ∃ u c, isName c = true ∧ item = u ++ [c, '"', ']'] ∧ item' = [c]

theorem clauseTail_true_equalsClause (h : Abbreviates mark shorthand attr) {name : List Char}
    (hname : ShorthandName name) (rest : List Char) :
    clauseTail true (equalsClause attr name ++ rest) =
      (clauseTail true rest).map fun p => (equalsClause attr name ++ p.1, p.2) := by
  have hattr : '"' ∉ attr.toList := fun hmem => (h.attr_plain _ hmem).2 rfl
  have hplain : '"' ∉ '[' :: (attr.toList ++ ['=']) := by simpa using hattr
  have hpass : clauseTail true (equalsClause attr name) = none := by
    rw [equalsClause_eq, ← List.cons_append,
      clauseTail_append_of_none (clauseTail_true_of_not_mem hplain), quotedAfter_of_not_mem hplain,
      clauseTail, if_neg (by decide)]
    show Option.map _ (Option.map _ (clauseTail false (name ++ ['"', ']']))) = none
    rw [clauseTail_append_of_none (clauseTail_of_not_mem (hname.not_mem (by decide) (by decide))),
      quotedAfter_of_not_mem hname.quote_not_mem]
    rfl
  have hquoted : quotedAfter true (equalsClause attr name) = true := by
    have happend : ∀ u v quoted,
        quotedAfter quoted (u ++ v) = quotedAfter (quotedAfter quoted u) v :=
      fun u v quoted => List.foldl_append
    rw [equalsClause_eq, ← List.cons_append, happend, quotedAfter_of_not_mem hplain,
      quotedAfter_cons, happend, quotedAfter_of_not_mem hname.quote_not_mem]
    rfl
  rw [clauseTail_append_of_none hpass, hquoted]

/-- A bracket that nothing closes in a text is closed in its expansion, if at all, by the bracket
of a clause that stands for a shorthand. -/
theorem Expands.closed (h : Abbreviates mark shorthand attr) {before : Option Char}
    {s out : List Char} (hs : Expands shorthand attr before s out) {quoted : Bool}
    {tail rest : List Char} (hopen : clauseTail quoted s = none)
    (hclosed : clauseTail quoted out = some (tail, rest)) :
    ∃ u c rest', isName c = true ∧ tail = u ++ [c, '"', ']'] ∧
      Expands shorthand attr (some c) rest' rest ∧
      ∀ text item, Outside text item s → Outside text [c] rest' := by
  induction hs generalizing quoted tail with
  | nil => cases hclosed
  | @clause before piece rest' out hpiece _ ih =>
    cases hpass : clauseTail quoted piece with
    | some p =>
      rw [clauseTail_append_of_some hpass] at hopen
      cases hopen
    | none =>
      rw [clauseTail_append_of_none hpass, Option.map_eq_none_iff] at hopen
      rw [clauseTail_append_of_none hpass] at hclosed
      obtain ⟨⟨tail', behind⟩, htail, heq⟩ := Option.map_eq_some_iff.1 hclosed
      obtain ⟨rfl, rfl⟩ := Prod.mk.inj heq
      obtain ⟨u, c, r, hc, rfl, hr, ho⟩ := ih hopen htail
      refine ⟨piece ++ u, c, r, hc, by simp, hr, ?_⟩
      intro text item hout
      exact ho text piece (hout.clause hpiece)
  | @shorthand before mark' name rest' out hshort hrest ih =>
    obtain ⟨hmark, hname⟩ := h.shape hshort
    obtain ⟨rfl, -⟩ := List.cons.inj hmark
    cases quoted with
    | false =>
      rw [(isClause_equalsClause h hname.quote_not_mem).clauseTail_append] at hclosed
      obtain ⟨rfl, rfl⟩ := Prod.mk.inj (Option.some.inj hclosed)
      obtain ⟨u, c, rfl, hc⟩ := hname.2
      rw [List.getLast?_concat] at hrest
      exact ⟨_, c, rest', hc, equalsClause_concat attr u c, hrest,
        fun text item hout => h.outside hshort hout⟩
    | true =>
      have hquote : '"' ∉ mark' :: name := by
        rw [List.mem_cons, not_or]
        exact ⟨Ne.symm h.mark_ne.2.2.1, hname.quote_not_mem⟩
      rw [← List.cons_append, clauseTail_append_of_none (clauseTail_true_of_not_mem hquote),
        quotedAfter_of_not_mem hquote, Option.map_eq_none_iff] at hopen
      rw [clauseTail_true_equalsClause h hname] at hclosed
      obtain ⟨⟨tail', behind⟩, htail, heq⟩ := Option.map_eq_some_iff.1 hclosed
      obtain ⟨rfl, rfl⟩ := Prod.mk.inj heq
      obtain ⟨u, c, r, hc, rfl, hr, ho⟩ := ih hopen htail
      refine ⟨equalsClause attr name ++ u, c, r, hc, by simp, hr, ?_⟩
      intro text item hout
      obtain ⟨v, d, rfl, hd⟩ := hname.2
      exact ho text [d] (h.outside hshort hout)
  | @char before d rest' out hclause _ _ ih =>
    rw [clauseTail] at hopen hclosed
    split at hclosed
    · rename_i hd
      rw [if_pos hd] at hopen
      cases hopen
    · rename_i hd
      rw [if_neg hd, Option.map_eq_none_iff] at hopen
      obtain ⟨⟨tail', behind⟩, htail, heq⟩ := Option.map_eq_some_iff.1 hclosed
      obtain ⟨rfl, rfl⟩ := Prod.mk.inj heq
      obtain ⟨u, c, r, hc, rfl, hr, ho⟩ := ih hopen htail
      refine ⟨d :: u, c, r, hc, by simp, hr, ?_⟩
      intro text item hout
      exact ho text [d] (hout.char hclause)

/-- **Places of an expansion.**  Every place of an expansion outside its clauses comes from such
a place of the text. -/
theorem Expands.outside (h : Abbreviates mark shorthand attr) {s out item rest : List Char}
    (hs : Expands shorthand attr none s out) (ho : Outside out item rest) :
    ∃ item' rest', Outside s item' rest' ∧ Expands shorthand attr item'.getLast? rest' rest ∧
      SameItem item item' := by
  induction ho with
  | start => exact ⟨[], s, .start, hs, .inl rfl⟩
  | @char item c rest _ hclause ih =>
    obtain ⟨item', behind, ho', hbehind, -⟩ := ih
    obtain ⟨rest', rfl, hnone, _, hrest⟩ := hbehind.of_cons h hclause
    exact ⟨[c], rest', ho'.char hnone, hrest, .inl rfl⟩
  | @clause item piece rest _ hpiece ih =>
    obtain ⟨item', behind, ho', hbehind, -⟩ := ih
    rcases hbehind.of_isClause h hpiece with ⟨rest', rfl, hrest⟩ |
      ⟨name, rest', hshort, rfl, hrest⟩ | ⟨rest', tail, rfl, rfl, hnone, hrest⟩
    · rw [← hpiece.getLast?] at hrest
      exact ⟨piece, rest', ho'.clause hpiece, hrest, .inl rfl⟩
    · obtain ⟨u, c, rfl, hc⟩ := (h.shape hshort).2.2
      rw [List.getLast?_concat] at hrest
      exact ⟨[c], rest', h.outside hshort ho', hrest,
        .inr ⟨_, c, hc, equalsClause_concat attr u c, rfl⟩⟩
    · have hopen : clauseTail false rest' = none := by
        rw [clause_cons_bracket, Option.map_eq_none_iff] at hnone
        exact hnone
      have hclosed := clauseTail_append_of_some (isClause_cons_iff.1 hpiece).2 rest
      obtain ⟨u, c, r, hc, rfl, hr, hout⟩ := hrest.closed h hopen hclosed
      exact ⟨[c], r, hout s ['['] (ho'.char hnone), hr, .inr ⟨'[' :: u, c, hc, rfl, rfl⟩⟩

/-! ## What stands behind a mark -/

theorem head?_any_isName_equalsClause (attr : String) (name out : List Char) :
    (equalsClause attr name ++ out).head?.any isName = false := by
  rw [equalsClause_eq]
  show isName '[' = false
  decide

/-- An expansion starts with a name character where its text does. -/
theorem Expands.head?_isName (h : Abbreviates mark shorthand attr) {before : Option Char}
    {s out : List Char} (hs : Expands shorthand attr before s out) :
    out.head?.any isName = s.head?.any isName := by
  cases hs with
  | nil => rfl
  | clause hpiece _ =>
    obtain ⟨tail, rfl⟩ := hpiece.exists_cons
    rfl
  | shorthand hshort _ =>
    obtain ⟨hmark, _⟩ := h.shape hshort
    rw [head?_any_isName_equalsClause, (List.cons.inj hmark).1]
    exact h.mark_ne.2.2.2.symm
  | char _ _ _ => rfl

theorem Expands.stopsAt_isName (h : Abbreviates mark shorthand attr) {before : Option Char}
    {s out : List Char} (hs : Expands shorthand attr before s out) :
    StopsAt isName out ↔ StopsAt isName s := by
  rw [stopsAt_iff, stopsAt_iff, hs.head?_isName h]

/-- The name at the head of an expansion is the one at the head of the text. -/
theorem Expands.nameSpan_eq (h : Abbreviates mark shorthand attr) {before : Option Char}
    {s out name rest : List Char} (hs : Expands shorthand attr before s out)
    (hspan : nameSpan out = (name, rest)) :
    ∃ before' rest', nameSpan s = (name, rest') ∧ Expands shorthand attr before' rest' rest := by
  induction out generalizing before s name with
  | nil =>
    obtain ⟨rfl, rfl⟩ := Prod.mk.inj hspan
    exact ⟨before, s, nameSpan_of_stopsAt ((hs.stopsAt_isName h).1 (stopsAt_nil _)), hs⟩
  | cons c out ih =>
    by_cases hc : isName c = true
    · rw [nameSpan_cons_of_isName hc] at hspan
      obtain ⟨rfl, rfl⟩ := Prod.mk.inj hspan
      obtain ⟨s', rfl, _, _, hs'⟩ := hs.of_cons h (clause_of_ne (ne_of_isName hc (by decide)))
      obtain ⟨before', rest', hname, hrest⟩ := ih hs' rfl
      refine ⟨before', rest', ?_, hrest⟩
      rw [nameSpan_cons_of_isName hc, hname]
      rfl
    · have hstops : StopsAt isName (c :: out) := by simpa using hc
      rw [nameSpan_of_stopsAt hstops] at hspan
      obtain ⟨rfl, rfl⟩ := Prod.mk.inj hspan
      exact ⟨before, s, nameSpan_of_stopsAt ((hs.stopsAt_isName h).1 hstops), hs⟩

/-- What an expansion writes in front of a name. -/
def clauseFront (attr : String) : List Char := '[' :: (attr.toList ++ ['=', '"'])

theorem clauseFront_prefix (attr : String) (name out : List Char) :
    clauseFront attr <+: equalsClause attr name ++ out :=
  ⟨name ++ ['"', ']'] ++ out, by simp [clauseFront, equalsClause]⟩

/-- Where an expansion does not continue a dotted name, its text does not either, unless by a
shorthand behind a dot. -/
theorem Expands.endsDotted (h : Abbreviates mark shorthand attr) {before : Option Char}
    {s out : List Char} (hs : Expands shorthand attr before s out) (hends : EndsDotted out) :
    EndsDotted s ∨ mark = '.' ∧ clauseFront attr <+: out := by
  cases hs with
  | nil => exact .inl rfl
  | clause hpiece _ =>
    obtain ⟨tail, rfl⟩ := hpiece.exists_cons
    exact .inl (endsDotted_of_ne (by decide) (by decide) _)
  | @shorthand _ mark' name rest out hshort _ =>
    obtain ⟨rfl, -⟩ := List.cons.inj (h.shape hshort).1
    rcases h.mark_eq with rfl | rfl
    · exact .inl (endsDotted_of_ne (by decide) (by decide) _)
    · exact .inr ⟨rfl, clauseFront_prefix attr name out⟩
  | @char _ c rest out _ _ hrest =>
    left
    rw [endsDotted_iff] at hends ⊢
    refine ⟨by simpa using hends.1, ?_⟩
    intro rest' heq
    obtain ⟨rfl, rfl⟩ := List.cons.inj heq
    exact (hrest.stopsAt_isName h).1 (hends.2 out rfl)

/-- The dotted name at the head of an expansion is the one at the head of the text, unless a
shorthand behind a dot cuts it short. -/
theorem Expands.dottedSpan_eq (h : Abbreviates mark shorthand attr) {before : Option Char}
    {s out name rest : List Char} (hs : Expands shorthand attr before s out)
    (hspan : dottedSpan out = (name, rest)) :
    (∃ before' rest', dottedSpan s = (name, rest') ∧ Expands shorthand attr before' rest' rest) ∨
      mark = '.' ∧ clauseFront attr <+: rest := by
  induction out generalizing before s name with
  | nil =>
    obtain ⟨rfl, rfl⟩ := Prod.mk.inj hspan
    rcases hs.endsDotted h rfl with hends | hcut
    · exact .inl ⟨before, s, hends, hs⟩
    · exact .inr hcut
  | cons c out ih =>
    by_cases hc : (isName c || (c == '.' && out.head?.any isName)) = true
    · rw [dottedSpan, if_pos hc] at hspan
      obtain ⟨rfl, rfl⟩ := Prod.mk.inj hspan
      have hne : c ≠ '[' := by
        rintro rfl
        exact absurd hc (by simp [show isName '[' = false by decide])
      obtain ⟨s', rfl, _, _, hs'⟩ := hs.of_cons h (clause_of_ne hne)
      rw [hs'.head?_isName h] at hc
      rcases ih hs' rfl with ⟨before', rest', hname, hrest⟩ | hcut
      · refine .inl ⟨before', rest', ?_, hrest⟩
        rw [dottedSpan, if_pos hc, hname]
      · exact .inr hcut
    · have hends : EndsDotted (c :: out) := by rw [EndsDotted, dottedSpan, if_neg hc]
      rw [hends] at hspan
      obtain ⟨rfl, rfl⟩ := Prod.mk.inj hspan
      rcases hs.endsDotted h hends with hends' | hcut
      · exact .inl ⟨before, s, hends', hs⟩
      · exact .inr hcut

/-- An expansion ends or starts with one of some marks where its text does, but for the brackets
that it writes itself. -/
theorem Expands.endsOrStartsWith_of (h : Abbreviates mark shorthand attr) {before : Option Char}
    {s out marks : List Char} (hs : Expands shorthand attr before s out)
    (hends : endsOrStartsWith marks out = true) :
    endsOrStartsWith marks s = true ∨ marks.contains mark = false ∧ clauseFront attr <+: out := by
  cases hs with
  | nil => exact .inl rfl
  | clause hpiece _ =>
    obtain ⟨tail, rfl⟩ := hpiece.exists_cons
    exact .inl hends
  | @shorthand _ mark' name rest out hshort _ =>
    obtain ⟨rfl, -⟩ := List.cons.inj (h.shape hshort).1
    by_cases hmark : marks.contains mark' = true
    · exact .inl hmark
    · exact .inr ⟨by simpa using hmark, clauseFront_prefix attr name out⟩
  | char _ _ _ => exact .inl hends

end

/-! ## Seams -/

/-- A clause with a name that ends in a hyphen. -/
def HyphenClosed (item : List Char) : Prop := ['-', '"', ']'] <:+ item

/-- **A seam** of a normalized text: a shorthand directly behind a clause with a name that ends
in a hyphen, or an identifier directly in front of the clause of a context. -/
inductive IsSeam (known : List String) (item rest : List Char) : Prop where
  | identifierBehind {name behind : List Char} (hitem : HyphenClosed item)
      (hshort : identifierShorthand item.getLast? rest = some (name, behind))
  | contextBehind {name behind : List Char} (hitem : HyphenClosed item)
      (hshort : knownContext known item.getLast? rest = some (name, behind))
  | identifierBefore {name behind : List Char}
      (hshort : identifierShorthand item.getLast? rest = some (name, behind))
      (hbehind : clauseFront contextAttribute <+: behind)

/-- Where a shorthand may stand behind an item but not behind the item that it comes from, a name
with a hyphen at its end was written as a clause. -/
theorem SameItem.hyphenClosed {item item' : List Char} (h : SameItem item item')
    (hcan : canPrecedeShorthand item.getLast? = true)
    (hcannot : canPrecedeShorthand item'.getLast? = false) :
    HyphenClosed item := by
  rcases h with rfl | ⟨u, c, hc, rfl, rfl⟩
  · rw [hcan] at hcannot
    cases hcannot
  · have hhyphen : c = '-' := by
      have hword : isWord c = false := by
        rw [List.getLast?_singleton, canPrecedeShorthand, Bool.or_eq_false_iff] at hcannot
        exact hcannot.1
      rw [isName, hword, Bool.or_false] at hc
      exact eq_of_beq hc
    subst hhyphen
    exact ⟨u, rfl⟩

theorem SameItem.hyphenClosed_trans {item item' : List Char} (h : SameItem item item')
    (hitem : HyphenClosed item') : HyphenClosed item := by
  rcases h with rfl | ⟨u, c, _, rfl, rfl⟩
  · exact hitem
  · have hlen := hitem.length_le
    simp at hlen

/-- The shorthand of a known context that both passes left over stands at a seam. -/
theorem isSeam_of_knownContext {known : List String} {s item rest name behind : List Char}
    (ho : Outside (expandContexts known s) item rest)
    (hshort : knownContext known item.getLast? rest = some (name, behind)) :
    IsSeam known item rest := by
  have habbr := abbreviates_knownContext known
  obtain ⟨hctx, hknown⟩ := knownContext_eq_some_iff.1 hshort
  obtain ⟨cs, rfl, hspan, hcan, hne, hends⟩ := contextShorthand_eq_some_iff.1 hctx
  obtain ⟨item', rest', _, hrest, hsame⟩ := (expands_expandContexts known s).outside habbr ho
  obtain ⟨cs', rfl, _, hnone, hcs⟩ := hrest.of_cons habbr (clause_of_ne (by decide))
  obtain ⟨_, behind', hspan', hbehind⟩ := hcs.nameSpan_eq habbr hspan
  have hends' : endsOrStartsWith ['.', ':', '['] behind' = true := by
    rcases hbehind.endsOrStartsWith_of habbr hends with hends' | ⟨hmark, _⟩
    · exact hends'
    · exact absurd hmark (by decide)
  have hcannot : canPrecedeShorthand item'.getLast? = false := by
    refine Bool.eq_false_iff.2 fun hcan' => ?_
    have hsome := contextShorthand_eq_some_iff.2 ⟨cs', rfl, hspan', hcan', hne, hends'⟩
    rw [knownContext_eq_some_iff.2 ⟨hsome, hknown⟩] at hnone
    cases hnone
  exact .contextBehind (hsame.hyphenClosed hcan hcannot) hshort

/-- An identifier that the first pass left over stands behind a name that ends in a hyphen. -/
theorem hyphenClosed_of_identifier {s item rest name behind : List Char}
    (ho : Outside (expandIdentifiers s) item rest)
    (hshort : identifierShorthand item.getLast? rest = some (name, behind)) :
    HyphenClosed item := by
  have habbr := abbreviates_identifier
  obtain ⟨cs, rfl, hspan, hcan, hhead, hends⟩ := identifierShorthand_eq_some_iff.1 hshort
  obtain ⟨item', rest', _, hrest, hsame⟩ := (expands_expandIdentifiers s).outside habbr ho
  obtain ⟨cs', rfl, _, hnone, hcs⟩ := hrest.of_cons habbr (clause_of_ne (by decide))
  rcases hcs.dottedSpan_eq habbr hspan with ⟨_, behind', hspan', hbehind⟩ | ⟨hmark, _⟩
  · have hends' : endsOrStartsWith [':', '[', '#'] behind' = true := by
      rcases hbehind.endsOrStartsWith_of habbr hends with hends' | ⟨hmark, _⟩
      · exact hends'
      · exact absurd hmark (by decide)
    have hhead' : cs'.head?.any isName = true := by
      rw [← hcs.head?_isName habbr]
      exact hhead
    have hcannot : canPrecedeShorthand item'.getLast? = false := by
      refine Bool.eq_false_iff.2 fun hcan' => ?_
      rw [identifierShorthand_eq_some_iff.2 ⟨cs', rfl, hspan', hcan', hhead', hends'⟩] at hnone
      cases hnone
    exact hsame.hyphenClosed hcan hcannot
  · exact absurd hmark (by decide)

/-- An identifier that the second pass leaves over stands at a seam, or was there before it. -/
theorem isSeam_or_identifier {known : List String} {s item rest name behind : List Char}
    (ho : Outside (expandContexts known s) item rest)
    (hshort : identifierShorthand item.getLast? rest = some (name, behind)) :
    IsSeam known item rest ∨
      ∃ item' rest' behind', Outside s item' rest' ∧ SameItem item item' ∧
        identifierShorthand item'.getLast? rest' = some (name, behind') := by
  have habbr := abbreviates_knownContext known
  obtain ⟨cs, rfl, hspan, hcan, hhead, hends⟩ := identifierShorthand_eq_some_iff.1 hshort
  obtain ⟨item', rest', ho', hrest, hsame⟩ := (expands_expandContexts known s).outside habbr ho
  obtain ⟨cs', rfl, _, _, hcs⟩ := hrest.of_cons habbr (clause_of_ne (by decide))
  rcases hcs.dottedSpan_eq habbr hspan with ⟨_, behind', hspan', hbehind⟩ | ⟨_, hcut⟩
  · rcases hbehind.endsOrStartsWith_of habbr hends with hends' | ⟨_, hcut⟩
    · have hhead' : cs'.head?.any isName = true := by
        rw [← hcs.head?_isName habbr]
        exact hhead
      by_cases hcan' : canPrecedeShorthand item'.getLast? = true
      · exact .inr ⟨item', '#' :: cs', behind', ho', hsame,
          identifierShorthand_eq_some_iff.2 ⟨cs', rfl, hspan', hcan', hhead', hends'⟩⟩
      · have hcannot : canPrecedeShorthand item'.getLast? = false := by simpa using hcan'
        exact .inl (.identifierBehind (hsame.hyphenClosed hcan hcannot) hshort)
    · exact .inl (.identifierBefore hshort hcut)
  · exact .inl (.identifierBefore hshort hcut)

/-- An identifier that both passes left over stands at a seam. -/
theorem isSeam_of_identifier {known : List String} {s item rest name behind : List Char}
    (ho : Outside (expandContexts known (expandIdentifiers s)) item rest)
    (hshort : identifierShorthand item.getLast? rest = some (name, behind)) :
    IsSeam known item rest := by
  rcases isSeam_or_identifier ho hshort with hseam | ⟨item', rest', behind', ho', hsame, hshort'⟩
  · exact hseam
  · have hclosed := hyphenClosed_of_identifier ho' hshort'
    exact .identifierBehind (hsame.hyphenClosed_trans hclosed) hshort

/-! ## The second normalization -/

/-- A text without blanks at its ends is its own normal form where neither pass has anything to
expand. -/
theorem normalizeChars_eq_self_iff {known : List String} {s : List Char} (htrim : trim s = s) :
    normalizeChars known s = s ↔
      Expands identifierShorthand identifierAttribute none s s ∧
        Expands (knownContext known) contextAttribute none s s := by
  rw [normalizeChars, htrim]
  constructor
  · intro h
    have hid := expands_expandIdentifiers s
    have hctx := expands_expandContexts known (expandIdentifiers s)
    rw [h] at hctx
    have hself : expandIdentifiers s = s := by
      -- neither pass makes a text shorter
      rcases hid.eq_or_length_lt with heq | hlt
      · exact heq
      · have hle := hctx.length_le
        omega
    rw [hself] at hid hctx
    exact ⟨hid, hctx⟩
  · rintro ⟨hid, hctx⟩
    rw [expandIdentifiers_eq hid, expandContexts_eq hctx]

/-- The second normalization of a selector changes nothing exactly where the first one left no
seam. -/
theorem normalize_normalize_eq_iff_not_isSeam (known : List String) (selector : String) :
    normalize known (normalize known selector) = normalize known selector ↔
      ∀ item rest, Outside (normalize known selector).toList item rest →
        ¬ IsSeam known item rest := by
  rw [← String.toList_inj, toList_normalize, toList_normalize,
    normalizeChars_eq_self_iff (trim_normalizeChars known selector.toList),
    expands_self_iff abbreviates_identifier, expands_self_iff (abbreviates_knownContext known)]
  constructor
  · rintro ⟨hid, hctx⟩ item rest ho hseam
    cases hseam with
    | identifierBehind _ hshort =>
      rw [hid item rest ho] at hshort
      cases hshort
    | contextBehind _ hshort =>
      rw [hctx item rest ho] at hshort
      cases hshort
    | identifierBefore hshort _ =>
      rw [hid item rest ho] at hshort
      cases hshort
  · intro h
    refine ⟨?_, ?_⟩
    · intro item rest ho
      rw [Option.eq_none_iff_forall_ne_some]
      rintro ⟨name, behind⟩ hshort
      exact h item rest ho (isSeam_of_identifier ho hshort)
    · intro item rest ho
      rw [Option.eq_none_iff_forall_ne_some]
      rintro ⟨name, behind⟩ hshort
      exact h item rest ho (isSeam_of_knownContext ho hshort)

/-! ## Attached shorthands -/

section
variable {known : List String} {items : List Shorthand}

/-- Attached shorthands leave no identifier behind that the first pass would expand. -/
theorem expands_map_expandedSegment {before : Option Char} {tail : List Char}
    (hvalid : ∀ item ∈ items, item.IsValid)
    (hself : ∀ before, Expands identifierShorthand identifierAttribute before tail tail) :
    Expands identifierShorthand identifierAttribute before
      (segmentsText (items.map (Shorthand.expandedSegment known)) ++ tail)
      (segmentsText (items.map (Shorthand.expandedSegment known)) ++ tail) := by
  induction items generalizing before with
  | nil => exact hself before
  | cons item rest ih =>
    rw [List.forall_mem_cons] at hvalid
    have hname := Shorthand.shorthandName hvalid.1
    rw [List.map_cons, segmentsText_cons, List.append_assoc]
    cases item with
    | context name =>
      rw [Shorthand.name] at hname
      rw [Shorthand.expandedSegment]
      split
      · exact .clause (isClause_equalsClause (abbreviates_knownContext known) hname.quote_not_mem)
          (ih hvalid.2)
      · exact .of_marked abbreviates_identifier hname (by decide)
          (hname.not_mem (by decide) (by decide))
          (abbreviates_identifier.eq_none_of_ne (by decide)) (ih hvalid.2)
    | identifier name =>
      exact .clause (isClause_equalsClause abbreviates_identifier hname.quote_not_mem) (ih hvalid.2)

/-- The words that attached shorthands leave behind are no known contexts. -/
theorem contextSegments_map_expandedSegment (attached : Bool) :
    contextSegments known attached (items.map (Shorthand.expandedSegment known)) =
      items.map (Shorthand.expandedSegment known) := by
  induction items generalizing attached with
  | nil => rfl
  | cons item rest ih =>
    rw [List.map_cons]
    cases item with
    | context name =>
      rw [Shorthand.expandedSegment]
      split
      · rw [contextSegments, ih]
      · rename_i hknown
        rw [contextSegments, ih, String.ofList_toList, Bool.eq_false_iff.2 hknown, Bool.and_false,
          if_neg Bool.false_ne_true]
    | identifier name => rw [Shorthand.expandedSegment, contextSegments, ih]

/-- Where every name with a shorthand behind it ends in a word character, a selector of the grammar
is normalized once and for all. -/
theorem normalize_normalize_of_attached {selector : String} {c : Compound}
    (h : parseCompound selector = .ok c)
    (hattached : ∀ item ∈ c.shorthands.dropLast, endsInWord item.name.toList = true) :
    normalize known (normalize known selector) = normalize known selector := by
  obtain ⟨htext, hvalid⟩ := parseCompound_ok h
  have hrow := Compound.looseSegments_of_attached known hattached
  have hsegments := isValid_looseSegments hvalid known
  have htail : EndsRow (clausesText c.clauses ++ stateText c.state) :=
    endsRow_clausesText c.clauses (endsRow_stateText c.state) hvalid.clauses
  rw [← String.toList_inj, toList_normalize, toList_normalize,
    normalizeChars_eq_self_iff (trim_normalizeChars known selector.toList),
    normalizeChars_eq hvalid htext, Compound.looseText]
  rw [hrow] at hsegments ⊢
  constructor
  · refine .of_tag abbreviates_identifier hvalid.tag fun before _ => ?_
    exact expands_map_expandedSegment hvalid.shorthands
      (expands_clausesText hvalid.clauses (expands_stateText abbreviates_identifier hvalid.state))
  · have habbr := abbreviates_knownContext known
    refine .of_tag habbr hvalid.tag fun before _ => ?_
    have hagain := @expands_contextSegments known before _ _ hsegments htail
      (expands_clausesText hvalid.clauses (expands_stateText habbr hvalid.state))
    rw [contextSegments_map_expandedSegment] at hagain
    exact hagain

end

/-! ## Normalizing twice -/

/-- **Normalizing twice.**  The second normalization of a selector changes nothing exactly where
the first one left no seam.  A selector of the grammar has none where every name with a shorthand
behind it ends in a word character. -/
theorem normalize_normalize_eq_iff (known : List String) (selector : String) :
    (normalize known (normalize known selector) = normalize known selector ↔
      ∀ item rest, Outside (normalize known selector).toList item rest →
        ¬ IsSeam known item rest) ∧
    ∀ c : Compound, parseCompound selector = .ok c →
      (∀ item ∈ c.shorthands.dropLast, endsInWord item.name.toList = true) →
      normalize known (normalize known selector) = normalize known selector :=
  ⟨normalize_normalize_eq_iff_not_isSeam known selector,
    fun _ => normalize_normalize_of_attached⟩

/-- All shorthands are attached, and the unknown context and the mark inside the value stay as they
are. -/
theorem normalize_normalize_eq_iff_chat :
    let selector := "button.chat.primary#send[title=\".chat#b\"]"
    let c : Compound := ⟨"button", [.context "chat", .context "primary", .identifier "send"],
      [⟨"title", .equals, some ".chat#b"⟩], none⟩
    parseCompound selector = .ok c ∧
      (∀ item ∈ c.shorthands.dropLast, endsInWord item.name.toList = true) ∧
      normalize standardContexts selector =
        "button[data-context=\"chat\"].primary[data-id=\"send\"][title=\".chat#b\"]" ∧
      normalize standardContexts (normalize standardContexts selector) =
        normalize standardContexts selector := by
  intro selector c
  have hparse : parseCompound selector = .ok c := eq_ok_of_toOption (by decide +kernel)
  have hattached : ∀ item ∈ c.shorthands.dropLast, endsInWord item.name.toList = true := by decide
  exact ⟨hparse, hattached, by decide +kernel,
    (normalize_normalize_eq_iff standardContexts selector).2 c hparse hattached⟩

/-- A name that ends in a hyphen lets no identifier follow it, its clause does. -/
theorem normalize_normalize_ne :
    normalize standardContexts (normalize standardContexts "button#a-#b") ≠
      normalize standardContexts "button#a-#b" := by
  decide +kernel

end StyleCascade.Selector

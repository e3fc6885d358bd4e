import StyleCascade.Proofs.TokenSequences

/-!
# The longest beginning of a row of tokens

Where a text does not hold a whole row of tokens, its longest beginning that begins a row of the
kind tells the place to blame: the place behind it, or its last token where the text has ended.
However else the text is cut into tokens, they end no later.

* `ReadsUpTo` — the longest beginning; `Blames` — the text from the place to blame.
* `Blames.here` — no token fits; `Decides`, `Blames.cons` — one decides, and the rest is to blame.
* `Spans.decides` — the longest word of a kind decides.
-/

namespace StyleCascade

/-! ## The longest beginning -/

/-- Tokens with which a row of tokens begins. -/
def Begins (row : List String → Prop) (tokens : List String) : Prop := ∃ w, row w ∧ tokens <+: w

/-- A text is read up to `rest`: the tokens in front of it begin a row, and whatever else begins a
row ends earlier in the text. -/
structure ReadsUpTo (row : List String → Prop) (s : List Char) (tokens : List String)
    (rest : List Char) : Prop where
  text : s = tokensText tokens ++ rest
  begins : Begins row tokens
  longest : ∀ tokens' rest', Begins row tokens' → s = tokensText tokens' ++ rest' →
    tokens' = tokens ∨ rest.length < rest'.length

/-- The text from the place to blame: where no token fits, or from the last token where the text
has ended. -/
def blamedAt (last : String) : List Char → List Char
  | [] => last.toList
  | c :: cs => c :: cs

theorem blamedAt_of_ne_nil {s : List Char} (h : s ≠ []) (last : String) : blamedAt last s = s := by
  cases s with
  | nil => exact absurd rfl h
  | cons c cs => rfl

/-- The text to blame for `s`, at which the tokens of a row may stand and in front of which stands
the token `last`. -/
def Blames (row : List String → Prop) (last : String) (s blamed : List Char) : Prop :=
  ∃ tokens rest, ReadsUpTo row s tokens rest ∧ blamed = blamedAt (tokens.getLastD last) rest

variable {row row' : List String → Prop} {last : String} {s blamed : List Char}

/-- Where no token fits, the place itself is to blame, or the last token if the text has ended. -/
theorem Blames.here (hrow : ∃ w, row w) (h : ∀ token w, row (token :: w) → ¬token.toList <+: s) :
    Blames row last s (blamedAt last s) := by
  obtain ⟨w, hw⟩ := hrow
  refine ⟨[], s, ⟨rfl, ⟨w, hw, List.nil_prefix⟩, ?_⟩, rfl⟩
  rintro (_ | ⟨token, more⟩) behind ⟨_, hrow', more', rfl⟩ heq
  · exact .inl rfl
  · rw [tokensText_cons, List.append_assoc] at heq
    exact absurd ⟨_, heq.symm⟩ (h token _ hrow')

theorem Blames.of_ne_nil (h : Blames row last s (blamedAt last s)) (hne : s ≠ []) :
    Blames row last s s := by
  rwa [blamedAt_of_ne_nil hne] at h

/-- A token decides a row at a text: it may stand there in front of the rows `row'`, and whatever
else may stand there is not cut from the text, or ends with its tokens before `rest`. -/
structure Decides (row row' : List String → Prop) (x : String) (rest : List Char) : Prop where
  ne_nil : x.toList ≠ []
  step : ∀ w, row' w → row (x :: w)
  first : ∀ y w more behind, row (y :: w) → more <+: w →
    x.toList ++ rest = y.toList ++ (tokensText more ++ behind) →
      (y = x ∧ row' w) ∨ rest.length < behind.length

/-- Behind a token that decides, the rest is to blame. -/
theorem Blames.cons {x : String} {rest : List Char} (hx : Decides row row' x rest)
    (h : Blames row' x rest blamed) : Blames row last (x.toList ++ rest) blamed := by
  obtain ⟨tokens, behind, ⟨rfl, ⟨w, hw, hprefix⟩, hlongest⟩, rfl⟩ := h
  refine ⟨x :: tokens, behind, ⟨?_, ⟨x :: w, hx.step w hw, ?_⟩, ?_⟩, ?_⟩
  · rw [tokensText_cons, List.append_assoc]
  · exact List.cons_prefix_cons.2 ⟨rfl, hprefix⟩
  · rintro (_ | ⟨y, more⟩) behind' ⟨_, hrow, hmore⟩ heq
    · right
      rw [tokensText_nil, List.nil_append] at heq
      have hpos := List.length_pos_iff.2 hx.ne_nil
      rw [← heq, List.length_append, List.length_append]
      omega
    · obtain ⟨more', rfl⟩ := hmore
      rw [tokensText_cons, List.append_assoc] at heq
      rcases hx.first y _ more behind' hrow (List.prefix_append more more') heq with
        ⟨rfl, hrow'⟩ | hlt
      · have hsame := hlongest more behind' ⟨_, hrow', List.prefix_append more more'⟩
          (List.append_cancel_left heq)
        rcases hsame with rfl | hlt
        · exact .inl rfl
        · exact .inr hlt
      · right
        rw [List.length_append] at hlt
        omega
  · rw [List.getLastD_cons]

/-- The tokens of a larger row make no difference where none of them fits. -/
theorem Blames.mono (h : Blames row last s blamed) (hrow : ∀ w, row w → row' w)
    (hfirst : ∀ token w, row' (token :: w) → token.toList <+: s → row (token :: w)) :
    Blames row' last s blamed := by
  obtain ⟨tokens, rest, ⟨htext, ⟨w, hw, hprefix⟩, hlongest⟩, rfl⟩ := h
  refine ⟨tokens, rest, ⟨htext, ⟨w, hrow w hw, hprefix⟩, ?_⟩, rfl⟩
  rintro (_ | ⟨token, more⟩) rest' ⟨w', hw', hmore⟩ heq
  · exact hlongest [] rest' ⟨w, hw, List.nil_prefix⟩ heq
  · obtain ⟨more', rfl⟩ := hmore
    have hfits : token.toList <+: s := by
      rw [heq, tokensText_cons, List.append_assoc]
      exact List.prefix_append _ _
    have hbegins : Begins row (token :: more) :=
      ⟨_, hfirst token _ hw' hfits, List.prefix_append (token :: more) more'⟩
    exact hlongest _ rest' hbegins heq

/-- A token decides where no other one fits. -/
theorem Decides.of_unique {x : String} {rest : List Char} (hx : x.toList ≠ [])
    (hstep : ∀ w, row' w → row (x :: w))
    (hfirst : ∀ y w, row (y :: w) → y.toList <+: x.toList ++ rest → y = x ∧ row' w) :
    Decides row row' x rest where
  ne_nil := hx
  step := hstep
  first := by
    intro y w more behind hrow _ heq
    exact .inl (hfirst y w hrow ⟨_, heq.symm⟩)

/-- The longest word of a kind decides, behind a mark that all tokens that fit have. -/
theorem Spans.decides {span : List Char → List Char × List Char} {word : List Char → Prop}
    (h : Spans span word) {x : String} (mark : List Char) {chars rest : List Char}
    (hx : x.toList = mark ++ chars) (hchars : word chars) (hne : x.toList ≠ [])
    (hrest : span rest = ([], rest))
    (hstep : ∀ w, row' w → row (x :: w))
    (hfirst : ∀ y w, row (y :: w) → y.toList <+: x.toList ++ rest →
      ∃ chars', y.toList = mark ++ chars' ∧ word chars' ∧ (y = x → row' w) ∧
        ∀ token more, w = token :: more →
          ∀ t, span (token.toList ++ t) = ([], token.toList ++ t)) :
    Decides row row' x rest where
  ne_nil := hne
  step := hstep
  first := by
    intro y w more behind hrow hmore heq
    obtain ⟨chars', hy, hword, hsame, hnext⟩ := hfirst y w hrow ⟨_, heq.symm⟩
    rw [hx, hy, List.append_assoc, List.append_assoc] at heq
    have hnext' : ∀ token tokens, more = token :: tokens →
        ∀ t, span (token.toList ++ t) = ([], token.toList ++ t) := by
      rintro token tokens rfl
      obtain ⟨behind', rfl⟩ := hmore
      exact hnext token _ rfl
    rcases h.munch hchars hword hrest hnext' (List.append_cancel_left heq) with hchars' | hlt
    · have heq' : y = x := by rw [← String.toList_inj, hy, hx, hchars']
      exact .inl ⟨heq', hsame heq'⟩
    · exact .inr hlt

end StyleCascade

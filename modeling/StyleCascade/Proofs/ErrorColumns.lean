import Mathlib.Order.Bounds.Defs
import StyleCascade.Proofs.BlamedPlaces

/-!
# The column of an error

A selector that does not keep to the grammar is turned away with a column: that of the end of its
longest readable beginning, or, where all of it is readable, that of the start of its last token.

* `IsColumnOf`, `isColumnOf_columnOf` — the column of a place, counted from the start of its line.
* `ReadableTo` — a text is, up to a place, the beginning of a selector; `IsBlamedColumn` — the
  column that this leads to.
* `column_of_strictTarget_error` — the column of an error.
-/

namespace StyleCascade

open StyleCascade.Text StyleCascade.Selector

/-! ## Columns -/

/-- Where a line begins: at the start of a text and behind a line feed. -/
def IsLineStart (s : List Char) (place : Nat) : Prop :=
  place = 0 ∨ ∃ before, place = before + 1 ∧ s[before]? = some '\n'

/-- The column of a place, counted from the last line start at or before it. -/
def IsColumnOf (s : List Char) (place column : Nat) : Prop :=
  ∃ start, IsGreatest {q | q ≤ place ∧ IsLineStart s q} start ∧ column = place + 1 - start

theorem isColumnOf_take {s : List Char} {place : Nat} (h : place ≤ s.length) :
    IsColumnOf s place (((s.take place).reverse.takeWhile (· != '\n')).length + 1) := by
  induction place with
  | zero => exact ⟨0, ⟨⟨Nat.le_refl _, .inl rfl⟩, fun _ hq => hq.1⟩, rfl⟩
  | succ place ih =>
    have hlt : place < s.length := h
    have hget : s[place]? = some s[place] := List.getElem?_eq_getElem hlt
    rw [List.take_succ_eq_append_getElem hlt, List.reverse_concat]
    by_cases hfeed : s[place] = '\n'
    · -- a line begins at this very place
      rw [List.takeWhile_cons_of_neg (by simp [hfeed])]
      refine ⟨place + 1, ⟨⟨Nat.le_refl _, .inr ⟨place, rfl, ?_⟩⟩, fun _ hq => hq.1⟩, by simp⟩
      rw [hget, hfeed]
    · -- the line goes on
      rw [List.takeWhile_cons_of_pos (by simpa using hfeed), List.length_cons]
      obtain ⟨start, ⟨⟨hle, hstart⟩, hgreatest⟩, hcolumn⟩ := ih (Nat.le_of_lt hlt)
      refine ⟨start, ⟨⟨by omega, hstart⟩, ?_⟩, by omega⟩
      rintro q ⟨hq, hline⟩
      rcases Nat.lt_or_eq_of_le hq with hq | rfl
      · exact hgreatest ⟨by omega, hline⟩
      · rcases hline with hzero | ⟨before, heq, hbefore⟩
        · cases hzero
        · cases heq
          rw [hget] at hbefore
          exact absurd (Option.some.inj hbefore) hfeed

/-- The column of the place where `rest` begins. -/
theorem isColumnOf_columnOf {s before rest : List Char} (h : s = before ++ rest) :
    IsColumnOf s before.length (columnOf s rest) := by
  have hplace : s.length - rest.length = before.length := by
    rw [h, List.length_append, Nat.add_sub_cancel]
  rw [columnOf, hplace]
  exact isColumnOf_take (by rw [h, List.length_append]; omega)

/-! ## The column of an error -/

/-- Whether a text is, up to a place, a concatenation of tokens with which a selector of the grammar
begins. -/
def ReadableTo (s : List Char) (place : Nat) : Prop :=
  place ≤ s.length ∧
    ∃ tokens, Begins Tail.selector tokens ∧ s.take place = (String.join tokens).toList

theorem toList_join_tokens (tokens : List String) :
    (String.join tokens).toList = tokensText tokens := by
  rw [String.toList_join]
  rfl

/-- The longest reading ends at the last readable place. -/
theorem ReadsUpTo.isGreatest {s rest : List Char} {tokens : List String}
    (h : ReadsUpTo Tail.selector s tokens rest) :
    IsGreatest {p | ReadableTo s p} (tokensText tokens).length := by
  obtain ⟨rfl, hbegins, hlongest⟩ := h
  constructor
  · refine ⟨by rw [List.length_append]; omega, tokens, hbegins, ?_⟩
    rw [List.take_left, toList_join_tokens]
  · rintro p ⟨hp, tokens', hbegins', htake⟩
    rw [toList_join_tokens] at htake
    have hp' := congrArg List.length htake
    rw [List.length_take, Nat.min_eq_left hp] at hp'
    rcases hlongest tokens' _ hbegins' (by rw [← htake, List.take_append_drop]) with rfl | hlt
    · exact Nat.le_of_eq hp'
    · rw [List.length_drop, List.length_append] at hlt
      omega

/-- The column to blame in a text: that of the last place that it is readable to, or, where it is
readable to its end, that of the start of the last token, however it is cut into tokens; it is 1
where there is no text. -/
def IsBlamedColumn (s : List Char) (column : Nat) : Prop :=
  ∃ place, IsGreatest {p | ReadableTo s p} place ∧
    (place < s.length → IsColumnOf s place column) ∧
    (place = s.length → ∀ tokens, Begins Tail.selector tokens → (String.join tokens).toList = s →
      IsColumnOf s (String.join tokens.dropLast).toList.length column) ∧
    (s = [] → column = 1)

theorem Blames.isBlamedColumn {s blamed : List Char} (h : Blames Tail.selector "" s blamed) :
    IsBlamedColumn s (columnOf s blamed) := by
  obtain ⟨tokens, rest, hread, rfl⟩ := h
  refine ⟨_, hread.isGreatest, ?_, ?_, ?_⟩
  · intro hlt
    have hne : rest ≠ [] := by
      rintro rfl
      rw [hread.text, List.append_nil] at hlt
      exact Nat.lt_irrefl _ hlt
    rw [blamedAt_of_ne_nil hne]
    exact isColumnOf_columnOf hread.text
  · intro hend tokens' hbegins htext
    have hrest : rest = [] := by
      have hlength := congrArg List.length hread.text
      rw [List.length_append, ← hend] at hlength
      exact List.length_eq_zero_iff.1 (by omega)
    subst hrest
    rw [toList_join_tokens] at htext ⊢
    rcases hread.longest tokens' [] hbegins (by rw [htext, List.append_nil]) with rfl | hlt
    · apply isColumnOf_columnOf
      rw [← htext]
      exact (tokensText_dropLast_append tokens').symm
    · exact absurd hlt (Nat.lt_irrefl _)
  · rintro rfl
    simp [columnOf]

/-- **The column of an error.**  A selector that is turned away is blamed at the end of its longest
readable beginning, or, where that is all of the selector, at the start of the last token. -/
theorem column_of_strictTarget_error {known : List String} {selector : String} {column : Nat}
    (h : strictTarget known selector = .error column) :
    IsBlamedColumn (trim selector.toList) column := by
  rw [strictTarget, parseCompound] at h
  cases hread : readCompound (trim selector.toList) with
  | error blamed =>
    rw [hread] at h
    cases h
    exact (blames_of_readCompound hread).isBlamedColumn
  | ok c =>
    rw [hread] at h
    cases h

/-- A line feed in a value begins a line, and the text stops behind the value. -/
theorem column_of_strictTarget_error_line :
    strictTarget [] "a[b=\"\n\"x" = .error 2 ∧
      IsBlamedColumn (trim "a[b=\"\n\"x".toList) 2 := by
  have herror : strictTarget [] "a[b=\"\n\"x" = .error 2 := by with_unfolding_all rfl
  exact ⟨herror, column_of_strictTarget_error herror⟩

end StyleCascade

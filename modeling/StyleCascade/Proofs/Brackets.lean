import StyleCascade.Proofs.Names
import StyleCascade.Selector.Clause

/-!
# Bracketed clauses

A clause is recognized by its own text: what stands behind it makes no difference.  A text that
closes no bracket only decides whether a quote is open behind it.

* `quotedAfter` — whether a quote is open behind a text.
* `clauseTail_append_of_none`, `clauseTail_append_of_some` — the search for the closing bracket,
  through a text that does not close it and in one that does.
* `IsClause`, `clause_eq_some_iff` — the texts that are clauses.
* `Outside` — the places of a text that lie outside its clauses.
-/

namespace StyleCascade.Selector

open StyleCascade.Text

/-! ## The search for the closing bracket -/

/-- Whether a quote is open behind a text, given whether one is open in front of it. -/
def quotedAfter (quoted : Bool) (u : List Char) : Bool :=
  u.foldl (fun quoted c => quoted != (c == '"')) quoted

@[simp] theorem quotedAfter_nil (quoted : Bool) : quotedAfter quoted [] = quoted := rfl

@[simp] theorem quotedAfter_cons (quoted : Bool) (c : Char) (cs : List Char) :
    quotedAfter quoted (c :: cs) = quotedAfter (quoted != (c == '"')) cs := rfl

theorem quotedAfter_of_not_mem {quoted : Bool} {u : List Char} (h : '"' ∉ u) :
    quotedAfter quoted u = quoted := by
  induction u with
  | nil => rfl
  | cons c cs ih =>
    rw [List.mem_cons, not_or] at h
    have hc : (c == '"') = false := by simpa using Ne.symm h.1
    rw [quotedAfter_cons, hc, Bool.bne_false, ih h.2]

/-- A text that closes no bracket is passed. -/
theorem clauseTail_append_of_none {quoted : Bool} {u : List Char}
    (h : clauseTail quoted u = none) (s : List Char) :
    clauseTail quoted (u ++ s) =
      (clauseTail (quotedAfter quoted u) s).map fun p => (u ++ p.1, p.2) := by
  induction u generalizing quoted with
  | nil => simp
  | cons c cs ih =>
    rw [clauseTail] at h
    rw [List.cons_append, clauseTail]
    split at h
    · cases h
    · rename_i hc
      rw [if_neg hc, ih (by simpa using h), quotedAfter_cons, Option.map_map]
      rfl

/-- The bracket is closed by the text itself, whatever stands behind it. -/
theorem clauseTail_append_of_some {quoted : Bool} {u tail rest : List Char}
    (h : clauseTail quoted u = some (tail, rest)) (s : List Char) :
    clauseTail quoted (u ++ s) = some (tail, rest ++ s) := by
  induction u generalizing quoted tail with
  | nil => cases h
  | cons c cs ih =>
    rw [clauseTail] at h
    rw [List.cons_append, clauseTail]
    split at h
    · rename_i hc
      obtain ⟨rfl, rfl⟩ := Prod.mk.inj (Option.some.inj h)
      rw [if_pos hc]
    · rename_i hc
      obtain ⟨⟨tail', rest'⟩, htail, heq⟩ := Option.map_eq_some_iff.1 h
      obtain ⟨rfl, rfl⟩ := Prod.mk.inj heq
      rw [if_neg hc, ih htail]
      rfl

theorem clauseTail_of_not_mem {quoted : Bool} {u : List Char} (h : ']' ∉ u) :
    clauseTail quoted u = none := by
  induction u generalizing quoted with
  | nil => rfl
  | cons c cs ih =>
    rw [List.mem_cons, not_or] at h
    rw [clauseTail, if_neg (by simp [Ne.symm h.1]), ih h.2]
    rfl

/-- Inside quotes a text without quotes closes nothing. -/
theorem clauseTail_true_of_not_mem {u : List Char} (h : '"' ∉ u) :
    clauseTail true u = none := by
  induction u with
  | nil => rfl
  | cons c cs ih =>
    rw [List.mem_cons, not_or] at h
    have hc : (c == '"') = false := by simpa using Ne.symm h.1
    rw [clauseTail, if_neg (by simp), hc, Bool.bne_false, ih h.2]
    rfl

theorem clauseTail_tail {quoted : Bool} {s tail rest : List Char}
    (h : clauseTail quoted s = some (tail, rest)) : clauseTail quoted tail = some (tail, []) := by
  induction s generalizing quoted tail with
  | nil => cases h
  | cons c cs ih =>
    rw [clauseTail] at h
    split at h
    · rename_i hc
      obtain ⟨rfl, rfl⟩ := Prod.mk.inj (Option.some.inj h)
      rw [clauseTail, if_pos hc]
    · rename_i hc
      obtain ⟨⟨tail', rest'⟩, htail, heq⟩ := Option.map_eq_some_iff.1 h
      obtain ⟨rfl, rfl⟩ := Prod.mk.inj heq
      rw [clauseTail, if_neg hc, ih htail]
      rfl

theorem clauseTail_getLast? {quoted : Bool} {s tail rest : List Char}
    (h : clauseTail quoted s = some (tail, rest)) : tail.getLast? = some ']' := by
  induction s generalizing quoted tail with
  | nil => cases h
  | cons c cs ih =>
    rw [clauseTail] at h
    split at h
    · rename_i hc
      obtain ⟨rfl, rfl⟩ := Prod.mk.inj (Option.some.inj h)
      have : c = ']' := by simp at hc; exact hc.1
      rw [this, List.getLast?_singleton]
    · obtain ⟨⟨tail', rest'⟩, htail, heq⟩ := Option.map_eq_some_iff.1 h
      obtain ⟨rfl, rfl⟩ := Prod.mk.inj heq
      rw [List.getLast?_cons, ih htail]
      rfl

/-! ## Texts that are clauses -/

/-- A text that is one whole clause. -/
def IsClause (piece : List Char) : Prop := clause none piece = some (piece, [])

theorem clause_cons_bracket (before : Option Char) (cs : List Char) :
    clause before ('[' :: cs) = (clauseTail false cs).map fun p => ('[' :: p.1, p.2) := rfl

theorem isClause_cons_iff {c : Char} {tail : List Char} :
    IsClause (c :: tail) ↔ c = '[' ∧ clauseTail false tail = some (tail, []) := by
  constructor
  · intro h
    by_cases hc : c = '['
    · subst hc
      rw [IsClause, clause_cons_bracket] at h
      obtain ⟨⟨tail', rest⟩, htail, heq⟩ := Option.map_eq_some_iff.1 h
      simp only [Prod.mk.injEq, List.cons.injEq, true_and] at heq
      obtain ⟨rfl, rfl⟩ := heq
      exact ⟨rfl, htail⟩
    · rw [IsClause, clause_of_ne hc] at h
      cases h
  · rintro ⟨rfl, htail⟩
    rw [IsClause, clause_cons_bracket, htail]
    rfl

/-- **A clause is recognized by its own text.** -/
theorem clause_eq_some_iff {before : Option Char} {s piece rest : List Char} :
    clause before s = some (piece, rest) ↔ IsClause piece ∧ s = piece ++ rest := by
  constructor
  · intro h
    refine ⟨?_, (clause_append h).symm⟩
    cases s with
    | nil => cases h
    | cons c cs =>
      by_cases hc : c = '['
      · subst hc
        rw [clause_cons_bracket] at h
        obtain ⟨⟨tail, rest'⟩, htail, heq⟩ := Option.map_eq_some_iff.1 h
        obtain ⟨rfl, rfl⟩ := Prod.mk.inj heq
        exact isClause_cons_iff.2 ⟨rfl, clauseTail_tail htail⟩
      · rw [clause_of_ne hc] at h
        cases h
  · rintro ⟨hpiece, rfl⟩
    cases piece with
    | nil => cases hpiece
    | cons c tail =>
      obtain ⟨rfl, htail⟩ := isClause_cons_iff.1 hpiece
      rw [List.cons_append, clause_cons_bracket, clauseTail_append_of_some htail]
      rfl

theorem IsClause.clause_append {piece : List Char} (h : IsClause piece) (before : Option Char)
    (rest : List Char) : clause before (piece ++ rest) = some (piece, rest) :=
  clause_eq_some_iff.2 ⟨h, rfl⟩

theorem IsClause.exists_cons {piece : List Char} (h : IsClause piece) :
    ∃ tail, piece = '[' :: tail := by
  cases piece with
  | nil => cases h
  | cons c tail => exact ⟨tail, by rw [(isClause_cons_iff.1 h).1]⟩

theorem IsClause.ne_nil {piece : List Char} (h : IsClause piece) : piece ≠ [] := by
  obtain ⟨tail, rfl⟩ := h.exists_cons
  exact List.cons_ne_nil _ _

theorem IsClause.getLast? {piece : List Char} (h : IsClause piece) :
    piece.getLast? = some ']' := by
  cases piece with
  | nil => cases h
  | cons c tail =>
    rw [List.getLast?_cons, clauseTail_getLast? (isClause_cons_iff.1 h).2]
    rfl

/-- Where no quote is open, the bracket of a clause closes what stands in front of it as well. -/
theorem IsClause.clauseTail_append {piece : List Char} (h : IsClause piece) (rest : List Char) :
    clauseTail false (piece ++ rest) = some (piece, rest) := by
  obtain ⟨tail, rfl⟩ := h.exists_cons
  have htail := clauseTail_append_of_some (isClause_cons_iff.1 h).2 rest
  rw [List.cons_append, clauseTail, if_neg (by decide)]
  show Option.map _ (clauseTail false (tail ++ rest)) = _
  rw [htail]
  rfl

/-- Whether a clause starts somewhere does not depend on the character in front. -/
theorem clause_before (before before' : Option Char) (s : List Char) :
    clause before s = clause before' s := by
  cases s with
  | nil => rfl
  | cons c cs =>
    by_cases hc : c = '['
    · subst hc
      rfl
    · rw [clause_of_ne hc, clause_of_ne hc]

/-- Whether a character may stand in a clause in front of its value. -/
def isPlain (c : Char) : Bool := c != ']' && c != '"'

theorem ne_of_isPlain {c : Char} (h : isPlain c = true) : c ≠ ']' ∧ c ≠ '"' := by
  simpa [isPlain] using h

/-- A clause without a value. -/
theorem isClause_name {name : List Char} (h : ∀ c ∈ name, c ≠ ']' ∧ c ≠ '"') :
    IsClause ('[' :: (name ++ [']'])) := by
  have hclose : ']' ∉ name := fun hmem => (h _ hmem).1 rfl
  have hquote : '"' ∉ name := fun hmem => (h _ hmem).2 rfl
  rw [isClause_cons_iff, clauseTail_append_of_none (clauseTail_of_not_mem hclose),
    quotedAfter_of_not_mem hquote]
  exact ⟨rfl, rfl⟩

/-- A clause with a value in quotes. -/
theorem isClause_value {front value : List Char} (hfront : ∀ c ∈ front, c ≠ ']' ∧ c ≠ '"')
    (hvalue : '"' ∉ value) : IsClause ('[' :: (front ++ '"' :: (value ++ ['"', ']']))) := by
  have hclose : ']' ∉ front := fun hmem => (hfront _ hmem).1 rfl
  have hquote : '"' ∉ front := fun hmem => (hfront _ hmem).2 rfl
  have hend : clauseTail true (value ++ ['"', ']']) = some (value ++ ['"', ']'], []) := by
    rw [clauseTail_append_of_none (clauseTail_true_of_not_mem hvalue),
      quotedAfter_of_not_mem hvalue]
    rfl
  have hvalue' : clauseTail false ('"' :: (value ++ ['"', ']'])) =
      some ('"' :: (value ++ ['"', ']']), []) := by
    rw [clauseTail, if_neg (by decide)]
    show Option.map _ (clauseTail true (value ++ ['"', ']'])) = _
    rw [hend]
    rfl
  rw [isClause_cons_iff, clauseTail_append_of_none (clauseTail_of_not_mem hclose),
    quotedAfter_of_not_mem hquote, hvalue']
  exact ⟨rfl, rfl⟩

/-! ## Places outside clauses -/

/-- A place of the text `s` outside its clauses: the item passed last — nothing at the start,
else a character or a whole clause — and the text behind the place. -/
inductive Outside (s : List Char) : (item rest : List Char) → Prop where
  | start : Outside s [] s
  | char {item : List Char} {c : Char} {rest : List Char} (h : Outside s item (c :: rest))
      (hclause : clause none (c :: rest) = none) : Outside s [c] rest
  | clause {item piece rest : List Char} (h : Outside s item (piece ++ rest))
      (hpiece : IsClause piece) : Outside s piece rest

end StyleCascade.Selector

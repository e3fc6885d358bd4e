import StyleCascade.Proofs.StrictReading

/-!
# Lexemes in front of other text

What the readers of lexemes do with a text of the grammar that further text follows.

* `isBlank_of_isName`, `trimStart_append_quote` — where blanks are trimmed.
* `attributeName?_append`, `quotedValue?_append` — a lexeme that is written is read back.
* `after?_name`, `after?_append_quote` — a fixed text in front of a name or a quote.
-/

namespace StyleCascade.Selector

open StyleCascade.Text

/-! ## Blanks -/

/-- The codes of the blanks. -/
def blankCodes : List Nat :=
  [9, 10, 11, 12, 13, 28, 29, 30, 31, 32, 0x85, 0xA0, 0x1680, 0x2000, 0x2001, 0x2002, 0x2003,
    0x2004, 0x2005, 0x2006, 0x2007, 0x2008, 0x2009, 0x200A, 0x2028, 0x2029, 0x202F, 0x205F, 0x3000]

theorem toNat_mem_blankCodes {c : Char} (h : isBlank c = true) : c.toNat ∈ blankCodes := by
  simp only [isBlank, Bool.or_eq_true, Bool.and_eq_true, decide_eq_true_eq, beq_iff_eq] at h
  simp only [blankCodes, List.mem_cons, List.not_mem_nil, or_false]
  omega

theorem isName_ofNat_of_mem_blankCodes :
    ∀ n ∈ blankCodes, (!isName (Char.ofNat n)) = true :=
  List.all_eq_true.1 (by decide +kernel)

/-- No name character is blank. -/
theorem isBlank_of_isName {c : Char} (h : isName c = true) : isBlank c = false := by
  refine Bool.eq_false_iff.2 fun hblank => ?_
  have hname := isName_ofNat_of_mem_blankCodes c.toNat (toNat_mem_blankCodes hblank)
  rw [Char.ofNat_toNat, h] at hname
  cases hname

theorem trimStart_of_stopsAt {s : List Char} (h : StopsAt isBlank s) : trimStart s = s :=
  dropWhile_of_stopsAt h

theorem trimStart_cons_of_isName {c : Char} (h : isName c = true) (cs : List Char) :
    trimStart (c :: cs) = c :: cs :=
  trimStart_of_stopsAt (stopsAt_cons.2 (isBlank_of_isName h))

theorem trimStart_append_quote (u rest : List Char) :
    trimStart (u ++ '"' :: rest) = trimStart u ++ '"' :: rest := by
  induction u with
  | nil => exact trimStart_of_stopsAt (stopsAt_cons.2 (by decide))
  | cons c cs ih =>
    by_cases hc : isBlank c = true
    · rw [List.cons_append, trimStart, List.dropWhile_cons_of_pos hc, trimStart,
        List.dropWhile_cons_of_pos hc]
      exact ih
    · have hstops : ∀ t, StopsAt isBlank (c :: t) := fun t => stopsAt_cons.2 (by simpa using hc)
      rw [List.cons_append, trimStart_of_stopsAt (hstops _), trimStart_of_stopsAt (hstops _)]
      rfl

theorem trimStart_suffix (s : List Char) : trimStart s <:+ s := List.dropWhile_suffix isBlank

/-! ## Values and fixed texts -/

theorem quotedValue?_append {value : List Char} (h : '"' ∉ value) (rest : List Char) :
    quotedValue? ('"' :: (value ++ '"' :: rest)) = some (value, rest) := by
  have hvalue : ∀ c ∈ value, (c != '"') = true := by
    intro c hc
    rw [bne_iff_ne]
    rintro rfl
    exact h hc
  have hstops : StopsAt (· != '"') ('"' :: rest) := stopsAt_cons.2 (by decide)
  rw [quotedValue?, dropWhile_append_of_stopsAt hvalue hstops,
    takeWhile_append_of_stopsAt hvalue hstops]

theorem quotedValue?_of_not_mem {s : List Char} (h : '"' ∉ s) : quotedValue? ('"' :: s) = none := by
  cases hfound : quotedValue? ('"' :: s) with
  | none => rfl
  | some p =>
    obtain ⟨heq, _⟩ := quotedValue?_ok hfound
    rw [(List.cons.inj heq).2] at h
    exact absurd (by simp) h

theorem quotedValue?_cons_of_ne {c : Char} (h : c ≠ '"') (cs : List Char) :
    quotedValue? (c :: cs) = none := by
  cases hfound : quotedValue? (c :: cs) with
  | none => rfl
  | some p => exact absurd (List.cons.inj (quotedValue?_ok hfound).1).1 h

theorem after?_suffix {fixed s rest : List Char} (h : after? fixed s = some rest) : rest <:+ s :=
  ⟨fixed, (after?_eq_some_iff.1 h).symm⟩

/-- A quote behind a text makes no difference where the fixed text has none. -/
theorem after?_append_quote {fixed : List Char} (h : '"' ∉ fixed) (u rest : List Char) :
    after? fixed (u ++ '"' :: rest) = (after? fixed u).map (· ++ '"' :: rest) := by
  induction fixed generalizing u with
  | nil => rfl
  | cons f fs ih =>
    rw [List.mem_cons, not_or] at h
    cases u with
    | nil =>
      have hf : (f == '"') = false := by simpa using Ne.symm h.1
      simp [after?, hf]
    | cons c cs =>
      rw [List.cons_append, after?, after?]
      split
      · exact ih h.2 cs
      · rfl

theorem after?_append_self (fixed rest : List Char) : after? fixed (fixed ++ rest) = some rest :=
  after?_eq_some_iff.2 rfl

/-- A name is the beginning of a longer one or it is the whole name. -/
theorem after?_name {fixed name s rest : List Char} (hfixed : ∀ c ∈ fixed, isName c = true)
    (hs : StopsAt isName s) (h : after? fixed (name ++ s) = some rest) :
    ∃ more, name = fixed ++ more ∧ rest = more ++ s := by
  rcases List.append_eq_append_iff.1 (after?_eq_some_iff.1 h) with
    ⟨more, hname, hrest⟩ | ⟨more, hname, hrest⟩
  · cases more with
    | nil => exact ⟨[], by simpa using hname.symm, by simpa using hrest.symm⟩
    | cons c cs =>
      have hc : isName c = true := hfixed c (by rw [hname]; simp)
      rw [hrest, List.cons_append, stopsAt_cons, hc] at hs
      cases hs
  · exact ⟨more, hname, hrest⟩

/-- A name that is written is read back. -/
theorem attributeName?_append {name : String} (h : IsAttributeName name) {s : List Char}
    (hs : StopsAt isName s) : attributeName? (name.toList ++ s) = some (name, s) := by
  obtain ⟨c, cs, heq, hc, hcs⟩ := h
  have hname : String.ofList (c :: cs) = name := by rw [← heq, String.ofList_toList]
  rw [heq, List.cons_append, attributeName?, if_pos hc, nameSpan_append_of_stopsAt hcs hs]
  simp only [hname]

/-- The sign of an operator continues no name. -/
theorem stopsAt_token {op : ClauseOperator} (h : op ≠ .present) (rest : List Char) :
    StopsAt isName (op.token.toList ++ rest) := by
  cases op with
  | present => exact absurd rfl h
  | _ => exact stopsAt_cons.2 (by decide)

end StyleCascade.Selector

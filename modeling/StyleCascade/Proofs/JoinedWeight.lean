import StyleCascade.Proofs.ClauseContents
import StyleCascade.Selector.Specificity

/-!
# The weight of joined texts

A selector may be cut in front of a clause or of a state, and what it weighs is the weight of both
parts, with the component counted once.  That holds of any texts as long as the first one has no
stray brackets: quotes may be left open, brackets of the second part never closed, and colons may
stand on both sides of the cut, where they belong to one state.

* `clauses_append`, `blankClauses_append` — no clause lies across the cut.
* `findAllFrom_stateName_append` — the states of both parts are those of the whole.
* `specificity_append` — weights add up.
-/

namespace StyleCascade.Selector

open StyleCascade.Text

/-! ## Clauses -/

theorem consumes_clause : Consumes clause := by
  intro before s piece rest h
  obtain ⟨hpiece, heq⟩ := clause_eq_some_iff.1 h
  exact ⟨piece, hpiece.ne_nil, heq⟩

/-- A text without stray brackets is scanned for clauses on its own, whatever follows it. -/
theorem IsClosed.scanFrom_append {s : List Char} (h : IsClosed s) (before : Option Char)
    (t : List Char) :
    scanFrom clause 0 before (s ++ t) =
      scanFrom clause 0 before s ++ scanFrom clause 0 none t := by
  induction before, s using scan_induction consumes_clause with
  | nil before =>
    rw [List.nil_append, scanFrom_nil, List.nil_append, scanFrom_before clause_before before none]
  | found before matched rest piece hne hfound ih =>
    obtain ⟨hpiece, heq⟩ := clause_eq_some_iff.1 hfound
    obtain rfl := List.append_cancel_right heq
    rw [List.append_assoc, scanFrom_found hne (hpiece.clause_append before (rest ++ t)),
      scanFrom_found hne hfound, ih ((isClosed_clause_append_iff hpiece rest).1 h),
      List.cons_append]
  | between before c cs hnone ih =>
    obtain ⟨hc, hclosed⟩ := h.cons (clause_before none before _ ▸ hnone)
    rw [List.cons_append, scanFrom_of_none (clause_of_ne hc), scanFrom_of_none hnone, ih hclosed,
      List.cons_append]

theorem clauses_append {s : List Char} (h : IsClosed s) (t : List Char) :
    clauses (s ++ t) = clauses s ++ clauses t := by
  rw [clauses, findAll, scan, h.scanFrom_append, List.filterMap_append]
  rfl

theorem blankClauses_append {s : List Char} (h : IsClosed s) (t : List Char) :
    blankClauses (s ++ t) = blankClauses s ++ blankClauses t := by
  rw [blankClauses, replaceClauses, replaceAll, scan, h.scanFrom_append, List.flatMap_append]
  rfl

/-- A text that goes on no name goes on none without its clauses either. -/
theorem stopsAt_blankClauses {t : List Char} (h : StopsAt isName t) :
    StopsAt isName (blankClauses t) := by
  rw [blankClauses, replaceClauses, replaceAll_eq_replaceFrom]
  cases t with
  | nil => simp
  | cons c cs =>
    cases hclause : clause none (c :: cs) with
    | none =>
      rw [replaceFrom_of_none hclause]
      exact stopsAt_cons.2 (stopsAt_cons.1 h)
    | some p =>
      obtain ⟨piece, rest⟩ := p
      obtain ⟨hpiece, heq⟩ := clause_eq_some_iff.1 hclause
      rw [heq, replaceFrom_isClause hpiece]
      exact stopsAt_cons.2 (by decide)

/-! ## States -/

theorem stateName_before (before before' : Option Char) (s : List Char) :
    stateName before s = stateName before' s := by
  cases s with
  | nil => rfl
  | cons c cs =>
    by_cases hc : c = ':'
    · subst hc
      rfl
    · rw [stateName_of_ne hc, stateName_of_ne hc]

theorem consumes_stateName : Consumes stateName := by
  intro before s name rest h
  obtain ⟨-, -, rfl | rfl⟩ := stateName_eq_some_iff.1 h
  · exact ⟨':' :: name, List.cons_ne_nil _ _, rfl⟩
  · exact ⟨':' :: ':' :: name, List.cons_ne_nil _ _, rfl⟩

theorem findAllFrom_of_stateName {before : Option Char} {s name rest : List Char}
    (h : stateName before s = some (name, rest)) :
    findAllFrom stateName before s = name :: findAllFrom stateName none rest := by
  obtain ⟨matched, hne, rfl⟩ := consumes_stateName before s name rest h
  rw [findAllFrom_found hne h, findAllFrom_before stateName_before _ none]

section
variable {t : List Char}

/-- In front of what goes on no name, a state is recognized as it is at the end of the text.  Only
a colon by itself may be the first one of two. -/
theorem stateName_append_of_stopsAt (ht : StopsAt isName t) {s : List Char} (hne : s ≠ [])
    (hcolon : s ≠ [':']) (before : Option Char) :
    stateName before (s ++ t) = (stateName before s).map fun p => (p.1, p.2 ++ t) := by
  obtain ⟨c, cs, rfl⟩ := List.exists_cons_of_ne_nil hne
  by_cases hc : c = ':'
  · subst hc
    have hcs : cs ≠ [] := fun hnil => hcolon (congrArg (':' :: ·) hnil)
    obtain ⟨d, ds, rfl⟩ := List.exists_cons_of_ne_nil hcs
    have hafter : (after? [':'] (d :: (ds ++ t))).getD (d :: (ds ++ t)) =
        (after? [':'] (d :: ds)).getD (d :: ds) ++ t := by
      simp only [after?]
      split <;> rfl
    simp only [List.cons_append, stateName, hafter, ht.nameSpan_append]
    split <;> rfl
  · rw [List.cons_append, stateName_of_ne hc, stateName_of_ne hc, Option.map_none]

/-- A colon in front of what goes on no name makes no state and takes none away. -/
theorem findAllFrom_stateName_colon (ht : StopsAt isName t) (before : Option Char) :
    findAllFrom stateName before (':' :: t) = findAllFrom stateName none t := by
  cases hstate : stateName before (':' :: t) with
  | none => rw [findAllFrom_of_none hstate, findAllFrom_before stateName_before _ none]
  | some p =>
    obtain ⟨name, rest⟩ := p
    obtain ⟨hname, hrest, heq | heq⟩ := stateName_eq_some_iff.1 hstate
    · have hhead := hname.head_isName rest
      rw [← (List.cons.inj heq).2, stopsAt_iff.1 ht] at hhead
      cases hhead
    · have htail : t = ':' :: (name ++ rest) := (List.cons.inj heq).2
      have hone : stateName none t = some (name, rest) :=
        stateName_eq_some_iff.2 ⟨hname, hrest, .inl htail⟩
      rw [findAllFrom_of_stateName hstate, findAllFrom_of_stateName hone]

/-- **The states on both sides of a cut.**  Where the second text goes on no name, the states of
the whole are those of the first text and those of the second. -/
theorem findAllFrom_stateName_append (ht : StopsAt isName t) (before : Option Char)
    (s : List Char) :
    findAllFrom stateName before (s ++ t) =
      findAllFrom stateName before s ++ findAllFrom stateName none t := by
  induction before, s using scan_induction consumes_stateName with
  | nil before =>
    rw [List.nil_append, findAllFrom_nil, List.nil_append,
      findAllFrom_before stateName_before before none]
  | found before matched rest name hne hfound ih =>
    have hcolon : matched ++ rest ≠ [':'] := by
      intro heq
      rw [heq] at hfound
      cases hfound
    have happend := stateName_append_of_stopsAt ht (List.append_ne_nil_of_left_ne_nil hne rest)
      hcolon before
    rw [hfound, List.append_assoc] at happend
    rw [List.append_assoc, findAllFrom_found hne happend, findAllFrom_found hne hfound, ih,
      List.cons_append]
  | between before c cs hnone ih =>
    by_cases hcolon : c :: cs = [':']
    · obtain ⟨rfl, rfl⟩ := List.cons.inj hcolon
      rw [findAllFrom_of_none hnone, findAllFrom_nil]
      exact findAllFrom_stateName_colon ht before
    · have happend := stateName_append_of_stopsAt ht (List.cons_ne_nil c cs) hcolon before
      rw [hnone, List.cons_append, Option.map_none] at happend
      rw [List.cons_append, findAllFrom_of_none happend, findAllFrom_of_none hnone, ih]

end

/-! ## Weights -/

theorem specificityOfChars_append {s t : List Char} (hs : IsClosed s) (ht : StopsAt isName t) :
    specificityOfChars (s ++ t) + componentWeight =
      specificityOfChars s + specificityOfChars t := by
  have hstates : findAll stateName (blankClauses (s ++ t)) =
      findAll stateName (blankClauses s) ++ findAll stateName (blankClauses t) := by
    rw [blankClauses_append hs]
    exact findAllFrom_stateName_append (stopsAt_blankClauses ht) none (blankClauses s)
  simp only [specificityOfChars, clauses_append hs, hstates, List.length_append, componentWeight,
    clauseWeight, stateWeight]
  omega

/-- **Weights add up.**  A text in which no opening bracket lies outside of its clauses, and any
text that starts with an opening bracket or with a colon, weigh together what each of them weighs,
with the component counted once. -/
theorem specificity_append {s t : String} (hs : IsClosed s.toList)
    (ht : t.toList.head? = some '[' ∨ t.toList.head? = some ':') :
    (specificity (s ++ t) : Int) = specificity s + specificity t - 1 := by
  have hstops : StopsAt isName t.toList := by
    intro c hc
    rcases ht with hbracket | hcolon
    · rw [hbracket, Option.mem_some_iff] at hc
      rw [← hc]
      decide
    · rw [hcolon, Option.mem_some_iff] at hc
      rw [← hc]
      decide
  have hchars := specificityOfChars_append hs hstops
  rw [specificity, String.toList_append, specificity, specificity]
  rw [componentWeight] at hchars
  omega

/-- One state with a colon on either side of the cut, behind a clause with a bracket in quotes and
in front of a bracket that is never closed. -/
theorem specificity_append_colons :
    let s := "button[a=\"]:x\"]:"
    let t := ":hover[b]:["
    IsClosed s.toList ∧ (t.toList.head? = some '[' ∨ t.toList.head? = some ':') ∧
      specificity s = 11 ∧ specificity t = 21 ∧ (specificity (s ++ t) : Int) = 31 := by
  intro s t
  have hs : IsClosed s.toList := by
    unfold IsClosed
    decide +kernel
  have ht : t.toList.head? = some '[' ∨ t.toList.head? = some ':' := .inr (by decide +kernel)
  have hs' : specificity s = 11 := by decide +kernel
  have ht' : specificity t = 21 := by decide +kernel
  refine ⟨hs, ht, hs', ht', ?_⟩
  rw [specificity_append hs ht, hs', ht']
  rfl

end StyleCascade.Selector

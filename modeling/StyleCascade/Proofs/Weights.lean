import StyleCascade.Proofs.ExpandedReading
import StyleCascade.Selector.Specificity

/-!
# What a selector of the grammar weighs

The weight of a selector is taken from its expanded text, where every bracketed clause counts and
every state.  Of a selector of the grammar these are the clauses that stand for its shorthands,
its own clauses and its state: values of clauses may hold brackets and colons, but none of them
counts.

* `Compound.isReadingOf_text` — the text of a selector has no blanks at its ends.
* `findAllFrom_clause_segmentsText` — the bracketed clauses of an expanded selector.
* `Compound.weight`, `specificity_of_isValid` — the weight of a selector, told from its parts.
* `Target.weight`, `specificity_of_namesOnce` — the weight of a selector that names no context and
  no identifier twice, told from its target.
-/

namespace StyleCascade

open StyleCascade.Text StyleCascade.Selector

/-! ## The ends of a text -/

namespace Text

variable {p : Char → Bool}

theorem StopsAt.append {u v : List Char} (hu : StopsAt p u) (hv : StopsAt p v) :
    StopsAt p (u ++ v) := by
  cases u with
  | nil => exact hv
  | cons c cs => exact hu

theorem stopsAt_reverse_of_getLast? {s : List Char} {c : Char} (h : s.getLast? = some c)
    (hc : p c = false) : StopsAt p s.reverse := by
  intro d hd
  rw [List.head?_reverse, h] at hd
  cases hd
  exact hc

theorem stopsAt_reverse_flatMap {α : Type} {text : α → List Char} {items : List α}
    (h : ∀ item ∈ items, StopsAt p (text item).reverse) :
    StopsAt p (items.flatMap text).reverse := by
  induction items with
  | nil => exact stopsAt_nil p
  | cons item rest ih =>
    rw [List.forall_mem_cons] at h
    rw [List.flatMap_cons, List.reverse_append]
    exact (ih h.2).append h.1

end Text

theorem stopsAt_reverse_of_isName {name : List Char} (h : ∀ c ∈ name, isName c = true) :
    StopsAt isBlank name.reverse := by
  intro c hc
  exact isBlank_of_isName (h c (List.mem_reverse.1 (List.mem_of_mem_head? hc)))

theorem Shorthand.stopsAt_reverse_text {item : Shorthand} (h : item.IsValid) :
    StopsAt isBlank item.text.toList.reverse := by
  have hname := Shorthand.shorthandName h
  obtain ⟨d, hlast, hd⟩ := hname.getLast?
  refine stopsAt_reverse_of_getLast? ?_ (isBlank_of_isName hd)
  cases item with
  | context name =>
    rw [toList_text_context]
    exact (hname.getLast?_cons '.').trans hlast
  | identifier name =>
    rw [toList_text_identifier]
    exact (hname.getLast?_cons '#').trans hlast

theorem stopsAt_reverse_stateText {state : Option String} (h : ∀ name ∈ state, IsNameWord name) :
    StopsAt isBlank (stateText state).reverse := by
  cases state with
  | none => exact stopsAt_nil _
  | some name =>
    have hname : NameWord name.toList := isNameWord_iff.1 (h name rfl)
    rw [stateText, List.reverse_cons]
    exact (stopsAt_reverse_of_isName hname.2).append (stopsAt_cons.2 (by decide))

/-- Behind a tag, a text without blanks at its end has none at its ends. -/
theorem trim_tag_append {tag : String} (htag : IsTag tag) {s : List Char}
    (hs : StopsAt isBlank s.reverse) : trim (tag.toList ++ s) = tag.toList ++ s := by
  refine trim_eq_self ?_ ?_
  · obtain ⟨d, ds, heq, hd, _⟩ := htag
    rw [heq]
    exact stopsAt_cons.2 (isBlank_of_isName (isName_of_isNameStart hd))
  · rw [List.reverse_append]
    exact hs.append (stopsAt_reverse_of_isName (isName_of_mem_tag htag))

/-- **No blanks at the ends.**  The text of a selector of the grammar is trimmed, so the selector
is a reading of its text. -/
theorem Compound.isReadingOf_text {c : Compound} (h : c.IsValid) : c.IsReadingOf c.text := by
  refine ⟨h, ?_⟩
  have hshorthands : StopsAt isBlank (shorthandsText c.shorthands).reverse :=
    stopsAt_reverse_flatMap fun item hitem =>
      Shorthand.stopsAt_reverse_text (h.shorthands item hitem)
  have hclauses : StopsAt isBlank (clausesText c.clauses).reverse := by
    refine stopsAt_reverse_flatMap fun clause hclause => ?_
    have hlast := (isClause_text (h.clauses clause hclause)).getLast?
    exact stopsAt_reverse_of_getLast? hlast (by decide)
  rw [Compound.toList_text]
  refine trim_tag_append h.tag ?_
  rw [List.reverse_append, List.reverse_append]
  exact ((stopsAt_reverse_stateText h.state).append hclauses).append hshorthands

/-! ## The bracketed clauses -/

section
variable {clauses : List AttributeClause} {segments : List Segment} {state : Option String}

theorem findAllFrom_clause_append {u : List Char} (h : '[' ∉ u) (before : Option Char)
    (s : List Char) :
    findAllFrom clause before (u ++ s) = findAllFrom clause (u.getLast?.or before) s := by
  refine findAllFrom_append_of_none ?_ before s
  exact eq_none_of_not_mem (fun _ _ _ hne => clause_of_ne hne) h

theorem findAllFrom_clause_text {item : AttributeClause} (h : item.IsValid)
    (before : Option Char) (rest : List Char) :
    findAllFrom clause before (item.text.toList ++ rest) =
      item.text.toList :: findAllFrom clause (some ']') rest := by
  have hclause := isClause_text h
  rw [findAllFrom_found hclause.ne_nil (hclause.clause_append before rest), hclause.getLast?]

theorem findAllFrom_clause_clausesText (hclauses : ∀ item ∈ clauses, item.IsValid)
    (hstate : ∀ name ∈ state, IsNameWord name) (before : Option Char) :
    findAllFrom clause before (clausesText clauses ++ stateText state) =
      clauses.map fun item => item.text.toList := by
  induction clauses generalizing before with
  | nil =>
    have hnone := findAllFrom_clause_append (bracket_not_mem_stateText hstate) before []
    rw [List.append_nil, findAllFrom_nil] at hnone
    exact hnone
  | cons item rest ih =>
    rw [List.forall_mem_cons] at hclauses
    rw [clausesText_cons, List.append_assoc, findAllFrom_clause_text hclauses.1, ih hclauses.2]
    rfl

/-- **The search for bracketed clauses** finds the clauses that stand for shorthands and those of
the grammar, in order. -/
theorem findAllFrom_clause_segmentsText (hsegments : ∀ s ∈ segments, s.IsValid)
    (hclauses : ∀ item ∈ clauses, item.IsValid) (hstate : ∀ name ∈ state, IsNameWord name)
    (before : Option Char) :
    findAllFrom clause before (segmentsText segments ++ (clausesText clauses ++ stateText state)) =
      (segments.filterMap Segment.clause? ++ clauses).map fun item => item.text.toList := by
  induction segments generalizing before with
  | nil => exact findAllFrom_clause_clausesText hclauses hstate before
  | cons segment rest ih =>
    rw [List.forall_mem_cons] at hsegments
    rw [segmentsText_cons, List.append_assoc]
    cases segment with
    | clause attr name =>
      have hvalid := isValid_shorthandClause hsegments.1.1 hsegments.1.2
      rw [Segment.text, ← toList_text_shorthandClause, findAllFrom_clause_text hvalid,
        ih hsegments.2]
      rfl
    | word mark name =>
      rw [findAllFrom_clause_append (bracket_not_mem_word hsegments.1), ih hsegments.2]
      rfl

end

/-! ## The weight -/

/-- The weight of a selector: that of its component, of its clauses once its shorthands are
expanded, and of its state. -/
def Compound.weight (known : List String) (c : Compound) : Nat :=
  componentWeight + clauseWeight * (c.looseClauses known).length +
    stateWeight * c.state.toList.length

/-- **The specificity of a selector of the grammar** is the weight of its parts. -/
theorem specificity_of_isValid {known : List String} {selector : String} {c : Compound}
    (hvalid : c.IsValid) (htext : trim selector.toList = c.text.toList) :
    specificity (normalize known selector) = c.weight known := by
  have hbracket : '[' ∉ c.tag.toList :=
    not_mem_of_isName (isName_of_mem_tag hvalid.tag) (by decide)
  have hclauses : (clauses (c.looseText known)).length = (c.looseClauses known).length := by
    rw [clauses, findAll_eq_findAllFrom, Compound.looseText, findAllFrom_clause_append hbracket,
      findAllFrom_clause_segmentsText (isValid_looseSegments hvalid known) hvalid.clauses
        hvalid.state, List.length_map]
    rfl
  have hstates : (findAll stateName (blankClauses (c.looseText known))).length =
      c.state.toList.length := by
    obtain ⟨u, hu, hblank⟩ := exists_blankClauses_looseText hvalid known
    rw [hblank, findAll_eq_findAllFrom, findAllFrom_stateName hu hvalid.state]
    cases c.state <;> rfl
  rw [specificity, toList_normalize, normalizeChars_eq hvalid htext, specificityOfChars, hclauses,
    hstates]
  rfl

/-! ## The weight of a target -/

/-- The weight that a target asks for: that of its component, of its context, its identifier and
its attribute clauses, and of its state. -/
def Target.weight (target : Target) : Nat :=
  componentWeight + clauseWeight * (target.context.toList.length +
    target.identifier.toList.length + target.attributes.length) +
    stateWeight * target.state.toList.length

/-- With its shorthands expanded, a selector has one clause at most that names a context and one at
most that names an identifier, and no value has a bracket that opens. -/
structure Compound.NamesOnce (known : List String) (c : Compound) : Prop where
  context :
    (c.looseClauses known).countP (fun clause => (clause.valueOf? contextAttribute).isSome) ≤ 1
  identifier :
    (c.looseClauses known).countP (fun clause => (clause.valueOf? identifierAttribute).isSome) ≤ 1
  values : ∀ clause ∈ c.clauses, '[' ∉ (clause.value.getD "").toList

/-- What at most one item gives is given as often as it is found. -/
theorem countP_isSome_of_le_one {α β : Type} {f : α → Option β} {l : List α}
    (h : l.countP (fun a => (f a).isSome) ≤ 1) :
    l.countP (fun a => (f a).isSome) = (l.findSome? f).toList.length := by
  induction l with
  | nil => rfl
  | cons a rest ih =>
    rw [List.countP_cons] at h ⊢
    rw [List.findSome?_cons]
    cases hfound : f a with
    | none =>
      rw [hfound] at h
      simpa using ih (by simpa using h)
    | some b =>
      rw [hfound] at h
      have hrest : rest.countP (fun a => (f a).isSome) = 0 := by simpa using h
      simp [hrest]

/-- A clause names a context, or an identifier, or it is left to the element. -/
theorem length_eq_countP_add (clauses : List AttributeClause) :
    clauses.length =
      clauses.countP (fun clause => (clause.valueOf? contextAttribute).isSome) +
        clauses.countP (fun clause => (clause.valueOf? identifierAttribute).isSome) +
          (clauses.filter (! ·.isConsumed)).length := by
  induction clauses with
  | nil => rfl
  | cons clause rest ih =>
    rw [List.length_cons, ih, List.countP_cons, List.countP_cons, List.filter_cons,
      AttributeClause.isConsumed]
    cases hcontext : clause.valueOf? contextAttribute with
    | none =>
      cases hidentifier : clause.valueOf? identifierAttribute with
      | none =>
        simp only [Option.isSome_none, Bool.or_self, Bool.not_false, Bool.false_eq_true, if_false,
          if_true, List.length_cons]
        omega
      | some name =>
        simp only [Option.isSome_none, Option.isSome_some, Bool.or_true, Bool.not_true,
          Bool.false_eq_true, if_false, if_true]
        omega
    | some name =>
      have hidentifier : clause.valueOf? identifierAttribute = none := by
        rw [AttributeClause.valueOf?, Option.ite_none_right_eq_some] at hcontext
        have hname : clause.name = contextAttribute := by
          simpa using (Bool.and_eq_true_iff.1 hcontext.1).1
        have hother : (contextAttribute == identifierAttribute) = false := by decide
        rw [AttributeClause.valueOf?, hname, hother, Bool.false_and, if_neg Bool.false_ne_true]
      simp only [hidentifier, Option.isSome_none, Option.isSome_some, Bool.or_false, Bool.not_true,
        Bool.false_eq_true, if_false, if_true]
      omega

/-- **The weight is told by the target.**  A selector of the grammar that names no context and no
identifier twice weighs what its target asks for. -/
theorem specificity_of_namesOnce {known : List String} {fallback selector : String} {c : Compound}
    (h : parseCompound selector = .ok c) (honce : c.NamesOnce known) :
    specificity (normalize known selector) = (lenientTarget known fallback selector).weight := by
  obtain ⟨htext, hvalid⟩ := parseCompound_ok h
  have hbrackets := bracket_not_mem_looseClauses hvalid known honce.values
  have hleft : (c.looseClauses known).filter (! ·.isConsumed) =
      c.clauses.filter (! ·.isConsumed) := by
    have hnone :
        ((c.looseSegments known).filterMap Segment.clause?).filter (! ·.isConsumed) = [] := by
      rw [List.filter_eq_nil_iff]
      intro clause hclause
      simp [(isValid_filterMap_clause? (isValid_looseSegments hvalid known) clause hclause).2]
    rw [Compound.looseClauses, List.filter_append, hnone, List.nil_append]
  rw [specificity_of_isValid hvalid htext, lenientTarget_of_parseCompound h, Compound.weight,
    length_eq_countP_add, countP_isSome_of_le_one honce.context,
    countP_isSome_of_le_one honce.identifier, ← map_ofList_looseValue hbrackets,
    ← map_ofList_looseValue hbrackets, hleft]
  rfl

end StyleCascade
